import WordStack.Proofs.Program.Depth

/-!
# Blocks: the syntax tree behind flat code

A block is a list of statements: a plain instruction, a branch with a body, or a loop with a
condition and a body. `Block.flatten` writes it down as flat code, with `if` and `end` around the
body of a branch, and `while`, `do` and `wend` around the parts of a loop.

* `balanced_flatten`: flat code of a block never goes below the depth it starts at, and ends there.
* `resolve_flatten`: so it resolves, whatever block it is.
* `Placed code pos b`: the block `b` stands in `code` at `pos`. `Placed.branch` and `Placed.loop`
  take it apart and tell the targets of its block words.
* `flatten_append_inj`: the code of a block determines the block and where it ends.
-/
namespace WordStack

/-- An instruction that is no block word. -/
abbrev Plain := { i : Instruction // i.op.isPlain = true }

/-- A block word. It keeps the instruction it stands for, which may carry a number or a text that
the operation does not use. -/
abbrev Mark (op : Op) := { i : Instruction // i.op = op }

/-- A list of statements. Each constructor but `empty` puts one in front of the rest. -/
inductive Block where
  | empty
  | plain (i : Plain) (rest : Block)
  /-- Written `if body end`. -/
  | branch (test : Mark .ifTest) (body : Block) (close : Mark .endMark) (rest : Block)
  /-- Written `while cond do body wend`. -/
  | loop (start : Mark .whileMark) (cond : Block) (test : Mark .doTest) (body : Block)
      (back : Mark .wend) (rest : Block)
  deriving DecidableEq

/-- The flat code of a block. -/
def Block.flatten : Block → List Instruction
  | empty => []
  | plain i rest => i.val :: rest.flatten
  | branch test body close rest => test.val :: (body.flatten ++ close.val :: rest.flatten)
  | loop start cond test body back rest =>
    start.val :: (cond.flatten ++ test.val :: (body.flatten ++ back.val :: rest.flatten))

/-- Print the top of the stack and count it down, as long as it is positive. -/
def Block.countdown : Block :=
  .loop ⟨{ op := .whileMark }, rfl⟩ (.plain ⟨{ op := .dup }, rfl⟩ .empty) ⟨{ op := .doTest }, rfl⟩
    (.plain ⟨{ op := .dup }, rfl⟩ (.plain ⟨{ op := .print }, rfl⟩
      (.plain ⟨{ op := .push, int := 1 }, rfl⟩ (.plain ⟨{ op := .sub }, rfl⟩ .empty))))
    ⟨{ op := .wend }, rfl⟩ .empty

/-- How many instructions a block has. -/
def Block.size (b : Block) : Nat := b.flatten.length

@[simp] theorem Block.size_empty : empty.size = 0 := rfl

@[simp] theorem Block.size_plain (i : Plain) (rest : Block) :
    (plain i rest).size = rest.size + 1 := rfl

@[simp] theorem Block.size_branch (test : Mark .ifTest) (body : Block) (close : Mark .endMark)
    (rest : Block) : (branch test body close rest).size = body.size + rest.size + 2 := by
  simp [size, flatten]; omega

@[simp] theorem Block.size_loop (start : Mark .whileMark) (cond : Block) (test : Mark .doTest)
    (body : Block) (back : Mark .wend) (rest : Block) :
    (loop start cond test body back rest).size = cond.size + body.size + rest.size + 3 := by
  simp [size, flatten]; omega

/-! ## Balance -/

/-- Code that never goes below the depth it starts at, and ends there. -/
structure Balanced (code : List Instruction) : Prop where
  total : depth code code.length = 0
  nonneg : ∀ k, 0 ≤ depth code k

theorem depth_append (code code' : List Instruction) (k : Nat) :
    depth (code ++ code') k = depth code k + depth code' (k - code.length) := by
  induction code generalizing k with
  | nil => rw [List.nil_append, depth_nil, Int.zero_add]; rfl
  | cons i code ih =>
    cases k with
    | zero => rw [depth_zero, depth_zero, Nat.zero_sub, depth_zero]; omega
    | succ k =>
      rw [List.cons_append, depth_cons, depth_cons, ih, List.length_cons, Nat.add_sub_add_right]
      omega

section
variable {o c : Instruction} {mid post : List Instruction}

/-- The depth behind an opener, up to the word that closes it. -/
theorem depth_inside (ho : o.op.isOpener = true) {k : Nat} (hk : k ≤ mid.length) :
    depth (o :: (mid ++ c :: post)) (k + 1) = 1 + depth mid k := by
  rw [depth_cons, Op.weight_of_isOpener ho, depth_append, Nat.sub_eq_zero_of_le hk, depth_zero]
  omega

/-- The depth behind the word that closes an opener. -/
theorem depth_behind (mid post : List Instruction) (c : Instruction) (ho : o.op.isOpener = true)
    (k : Nat) :
    depth (o :: (mid ++ c :: post)) (mid.length + k + 2) =
      1 + depth mid mid.length + c.op.weight + depth post k := by
  rw [depth_cons, Op.weight_of_isOpener ho, depth_append, depth_of_length_le (by omega),
    show mid.length + k + 1 - mid.length = k + 1 by omega, depth_cons]
  omega

/-- An opener, what it encloses, the word that closes it, and what follows. -/
theorem Balanced.enclose (ho : o.op.isOpener = true) (hmid : ∀ k, 0 ≤ depth mid k)
    (hc : 1 + depth mid mid.length + c.op.weight = 0) (hpost : Balanced post) :
    Balanced (o :: (mid ++ c :: post)) := by
  refine ⟨?_, ?_⟩
  · rw [show (o :: (mid ++ c :: post)).length = mid.length + post.length + 2 by simp; omega,
      depth_behind mid post c ho, hc, hpost.total]; rfl
  · intro k
    rcases Nat.lt_or_ge k (mid.length + 2) with hk | hk
    · cases k with
      | zero => exact Int.le_of_eq depth_zero.symm
      | succ k =>
        have := hmid k
        rw [depth_inside ho (by omega)]; omega
    · have := hpost.nonneg (k - (mid.length + 2))
      rw [show k = mid.length + (k - (mid.length + 2)) + 2 by omega, depth_behind mid post c ho, hc]
      omega

end

/-- A condition, the `do` behind it and a body: one level is left open. -/
theorem depth_loop {cond body : List Instruction} (test : Mark .doTest) (hc : Balanced cond)
    (hb : Balanced body) :
    (∀ k, 0 ≤ depth (cond ++ test.val :: body) k) ∧
      depth (cond ++ test.val :: body) (cond ++ test.val :: body).length = 1 := by
  have ht : test.val.op.weight = 1 := by rw [test.property]; rfl
  refine ⟨?_, ?_⟩
  · intro k
    have := hc.nonneg k
    rw [depth_append]
    cases k - cond.length with
    | zero => rw [depth_zero]; omega
    | succ m =>
      have := hb.nonneg m
      rw [depth_cons, ht]; omega
  · rw [depth_append, List.length_append, depth_of_length_le (by omega), hc.total,
      Nat.add_sub_cancel_left, List.length_cons, depth_cons, ht, hb.total]; rfl

theorem balanced_flatten (b : Block) : Balanced b.flatten := by
  induction b with
  | empty => exact ⟨rfl, fun k => Int.le_of_eq (depth_nil k).symm⟩
  | plain i rest ih =>
    have hw := Op.weight_of_isPlain i.property
    refine ⟨?_, ?_⟩
    · rw [Block.flatten, List.length_cons, depth_cons, hw, ih.total]; rfl
    · intro k
      cases k with
      | zero => exact Int.le_of_eq depth_zero.symm
      | succ k =>
        have := ih.nonneg k
        rw [Block.flatten, depth_cons, hw]; omega
  | branch test body close rest ihb ihr =>
    refine Balanced.enclose (by rw [test.property]; rfl) ihb.nonneg ?_ ihr
    rw [ihb.total, close.property]; rfl
  | loop start cond test body back rest ihc ihb ihr =>
    obtain ⟨hnonneg, htotal⟩ := depth_loop test ihc ihb
    have henc := Balanced.enclose (o := start.val) (c := back.val) (by rw [start.property]; rfl)
      hnonneg (by rw [htotal, back.property]; rfl) ihr
    rw [Block.flatten]
    simpa using henc

theorem not_overdraws_of_nonneg {code : List Instruction} (h : ∀ k, 0 ≤ depth code k) (k : Nat) :
    ¬ Overdraws code k := by
  have := h (k + 1)
  rintro (⟨he, hlt⟩ | ⟨hw, hlt⟩)
  · rw [depth_succ_of_end he] at this; omega
  · rw [depth_succ_of_wend hw] at this; omega

/-- The code of every block resolves. -/
theorem resolve_flatten (b : Block) :
    ∃ p, Program.resolve b.flatten = .ok p ∧ p.code.toList = b.flatten := by
  obtain ⟨p, hp, hcode, -⟩ :=
    Program.resolve_eq_ok (not_overdraws_of_nonneg (balanced_flatten b).nonneg)
  exact ⟨p, hp, hcode⟩

/-! ## Blocks in place -/

/-- The block `b` stands in `code` at `pos`. -/
def Placed (code : List Instruction) (pos : Nat) (b : Block) : Prop :=
  ∃ pre post, code = pre ++ (b.flatten ++ post) ∧ pre.length = pos

theorem placed_self (b : Block) : Placed b.flatten 0 b := ⟨[], [], by simp, rfl⟩

theorem getElem?_append_cons {pre post : List Instruction} {i : Instruction} {pos : Nat}
    (h : pre.length = pos) : (pre ++ i :: post)[pos]? = some i := by
  subst h; simp

theorem depth_append_add (pre tail : List Instruction) (k : Nat) :
    depth (pre ++ tail) (pre.length + k) = depth pre pre.length + depth tail k := by
  rw [depth_append, depth_of_length_le (by omega), Nat.add_sub_cancel_left]

/-- What closes an opener, and how deep the code is behind that. -/
theorem closes_append (pre post : List Instruction) (c : Instruction) {mid : List Instruction}
    {o : Instruction} (ho : o.op.isOpener = true) (hmid : ∀ k, 0 ≤ depth mid k)
    (hc : 1 + depth mid mid.length + c.op.weight ≤ 0) :
    Closes (pre ++ o :: (mid ++ c :: post)) pre.length (pre.length + mid.length + 1) ∧
      depth (pre ++ o :: (mid ++ c :: post)) (pre.length + mid.length + 1 + 1) =
        depth (pre ++ o :: (mid ++ c :: post)) pre.length +
          (1 + depth mid mid.length + c.op.weight) := by
  have hstart := depth_append_add pre (o :: (mid ++ c :: post)) 0
  have hend := depth_append_add pre (o :: (mid ++ c :: post)) (mid.length + 2)
  have hbehind := depth_behind mid post c ho 0
  rw [depth_zero] at hstart hbehind
  rw [Nat.add_zero] at hstart hbehind
  rw [show pre.length + (mid.length + 2) = pre.length + mid.length + 1 + 1 by omega] at hend
  refine ⟨⟨by omega, by simp; omega, by omega, ?_⟩, by omega⟩
  intro k hk hkj
  obtain ⟨m, rfl⟩ : ∃ m, k = pre.length + m := ⟨k - pre.length, by omega⟩
  have hin := depth_append_add pre (o :: (mid ++ c :: post)) (m + 1)
  rw [depth_inside ho (by omega), ← Nat.add_assoc] at hin
  have := hmid m
  omega

section
variable {code : List Instruction} {p : Program} {pos : Nat}

theorem Placed.plain {i : Plain} {rest : Block} (h : Placed code pos (.plain i rest)) :
    code[pos]? = some i.val ∧ Placed code (pos + 1) rest := by
  obtain ⟨pre, post, rfl, hpos⟩ := h
  refine ⟨by rw [Block.flatten]; exact getElem?_append_cons hpos,
    pre ++ [i.val], post, by simp [Block.flatten], by simp [hpos]⟩

/-- A branch in place: `if` points to its `end`, which is blank. -/
theorem Placed.branch {test : Mark .ifTest} {body : Block} {close : Mark .endMark} {rest : Block}
    (hp : Program.resolve code = .ok p) (h : Placed code pos (.branch test body close rest)) :
    code[pos]? = some test.val ∧ code[pos + body.size + 1]? = some close.val ∧
      p.target? pos = some ((pos + body.size + 1 : Nat) : Int) ∧
      Placed code (pos + 1) body ∧ Placed code (pos + body.size + 2) rest := by
  obtain ⟨pre, post, hcode, rfl⟩ := h
  obtain ⟨-, he⟩ := Program.entries_of_resolve hp
  have hsplit : code =
      pre ++ test.val :: (body.flatten ++ close.val :: (rest.flatten ++ post)) := by
    simp [hcode, Block.flatten]
  have hbody := balanced_flatten body
  have htest : test.val.op.isOpener = true := by rw [test.property]; rfl
  have hweight : close.val.op.weight = -1 := by rw [close.property]; rfl
  obtain ⟨hc, -⟩ := closes_append pre (rest.flatten ++ post) close.val htest
    hbody.nonneg (by rw [hbody.total, hweight]; omega)
  rw [← hsplit] at hc
  have hopen : code[pre.length]? = some test.val := by
    rw [hsplit]; exact getElem?_append_cons rfl
  have hclose : code[pre.length + body.size + 1]? = some close.val := by
    rw [hsplit, ← List.cons_append, ← List.append_assoc]
    exact getElem?_append_cons (by simp [Block.size]; omega)
  refine ⟨hopen, hclose, ?_, ?_, ?_⟩
  · rw [Program.target?_natCast, he.inner _ _ ⟨_, hopen, htest⟩ hc hc.inside]
    · rfl
    · rintro ⟨⟨i, hi, hop⟩, -⟩
      rw [show pre.length + body.flatten.length + 1 = pre.length + body.size + 1 from rfl, hclose]
        at hi
      cases hi
      rw [close.property] at hop; cases hop
  · exact ⟨pre ++ [test.val], close.val :: (rest.flatten ++ post), by simp [hsplit], by simp⟩
  · exact ⟨pre ++ test.val :: (body.flatten ++ [close.val]), post, by simp [hsplit],
      by simp [Block.size]; omega⟩

/-- A loop in place: `do` points to its `wend`, which points back to the `while`, which is blank. -/
theorem Placed.loop {start : Mark .whileMark} {cond : Block} {test : Mark .doTest} {body : Block}
    {back : Mark .wend} {rest : Block} (hp : Program.resolve code = .ok p)
    (h : Placed code pos (.loop start cond test body back rest)) :
    code[pos]? = some start.val ∧ code[pos + cond.size + 1]? = some test.val ∧
      code[pos + cond.size + body.size + 2]? = some back.val ∧
      p.target? pos = none ∧
      p.target? (pos + cond.size + 1 : Nat) = some ((pos + cond.size + body.size + 2 : Nat) : Int) ∧
      p.target? (pos + cond.size + body.size + 2 : Nat) = some (pos : Int) ∧
      Placed code (pos + 1) cond ∧ Placed code (pos + cond.size + 2) body ∧
      Placed code (pos + cond.size + body.size + 3) rest := by
  obtain ⟨pre, post, hcode, rfl⟩ := h
  obtain ⟨-, he⟩ := Program.entries_of_resolve hp
  have hcond := balanced_flatten cond
  have hbody := balanced_flatten body
  obtain ⟨hnonneg, htotal⟩ := depth_loop test hcond hbody
  have hstart : start.val.op.isOpener = true := by rw [start.property]; rfl
  have htest : test.val.op.isOpener = true := by rw [test.property]; rfl
  have hweight : back.val.op.weight = -2 := by rw [back.property]; rfl
  -- the `while` encloses the condition, the `do` and the body; the `do` encloses the body
  have houter : code = pre ++ start.val ::
      ((cond.flatten ++ test.val :: body.flatten) ++ back.val :: (rest.flatten ++ post)) := by
    simp [hcode, Block.flatten]
  have hinner : code = (pre ++ start.val :: cond.flatten) ++
      test.val :: (body.flatten ++ back.val :: (rest.flatten ++ post)) := by
    simp [hcode, Block.flatten]
  obtain ⟨hcw, hdw⟩ := closes_append pre (rest.flatten ++ post) back.val
    hstart hnonneg (by rw [htotal, hweight]; omega)
  obtain ⟨hcd, hdd⟩ := closes_append (pre ++ start.val :: cond.flatten)
    (rest.flatten ++ post) back.val htest hbody.nonneg
    (by rw [hbody.total, hweight]; omega)
  rw [← houter, show pre.length + (cond.flatten ++ test.val :: body.flatten).length + 1 =
    pre.length + cond.size + body.size + 2 by simp [Block.size]; omega] at hcw hdw
  rw [← hinner, show (pre ++ start.val :: cond.flatten).length = pre.length + cond.size + 1 by
      simp [Block.size]; omega, show pre.length + cond.size + 1 + body.flatten.length + 1 =
    pre.length + cond.size + body.size + 2 by simp [Block.size]; omega] at hcd hdd
  rw [htotal, hweight] at hdw
  rw [hbody.total, hweight] at hdd
  have hs : code[pre.length]? = some start.val := by
    rw [houter]; exact getElem?_append_cons rfl
  have ht : code[pre.length + cond.size + 1]? = some test.val := by
    rw [hinner]; exact getElem?_append_cons (by simp [Block.size]; omega)
  have hb : code[pre.length + cond.size + body.size + 2]? = some back.val := by
    rw [houter, ← List.cons_append, ← List.append_assoc]
    exact getElem?_append_cons (by simp [Block.size]; omega)
  have hback : HasOp code (pre.length + cond.size + body.size + 2) .wend := ⟨_, hb, back.property⟩
  obtain ⟨hblank, hpoint⟩ := he.outer _ _ ⟨_, hs, hstart⟩ hcw hcw.inside hback (by omega)
  refine ⟨hs, ht, hb, ?_, ?_, ?_, ?_, ?_, ?_⟩
  · rw [Program.target?_natCast, hblank]; rfl
  · rw [Program.target?_natCast, he.inner _ _ ⟨_, ht, htest⟩ hcd hcd.inside (by omega)]; rfl
  · rw [Program.target?_natCast, hpoint]; rfl
  · exact ⟨pre ++ [start.val],
      test.val :: (body.flatten ++ back.val :: (rest.flatten ++ post)), by simp [hinner], by simp⟩
  · exact ⟨pre ++ start.val :: (cond.flatten ++ [test.val]), back.val :: (rest.flatten ++ post),
      by simp [hinner], by simp [Block.size]; omega⟩
  · exact ⟨pre ++ start.val :: (cond.flatten ++ test.val :: (body.flatten ++ [back.val])), post,
      by simp [hinner], by simp [Block.size]; omega⟩

end

/-! ## A block can be read back -/

/-- What the first statement of a block is, if there is one. -/
def Block.kind : Block → Nat
  | empty => 0
  | plain .. => 1
  | branch .. => 2
  | loop .. => 3

/-- What statement an operation starts. With `do`, `end` and `wend` a block ends. -/
def Op.kind : Op → Nat
  | .doTest | .endMark | .wend => 0
  | .ifTest => 2
  | .whileMark => 3
  | _ => 1

theorem Op.kind_of_isPlain {op : Op} (h : op.isPlain = true) : op.kind = 1 := by
  cases op <;> simp_all [isPlain, kind]

/-- What statement code starts with, told by its first word. -/
def startKind : List Instruction → Nat
  | [] => 0
  | i :: _ => i.op.kind

theorem startKind_mark {op : Op} (m : Mark op) (code : List Instruction) :
    startKind (m.val :: code) = op.kind := by
  rw [startKind, m.property]

theorem startKind_flatten_append (b : Block) {r : List Instruction} (hr : startKind r = 0) :
    startKind (b.flatten ++ r) = b.kind := by
  cases b with
  | empty => exact hr
  | plain i rest => exact Op.kind_of_isPlain i.property
  | branch test body close rest => exact startKind_mark test _
  | loop start cond test body back rest => exact startKind_mark start _

theorem kind_eq_of_append {b b' : Block} {r r' : List Instruction}
    (h : b.flatten ++ r = b'.flatten ++ r') (hr : startKind r = 0) (hr' : startKind r' = 0) :
    b.kind = b'.kind := by
  rw [← startKind_flatten_append b hr, h, startKind_flatten_append b' hr']

/-- The code of a block determines the block, and where it ends in longer code. -/
theorem flatten_append_inj {b b' : Block} {r r' : List Instruction}
    (h : b.flatten ++ r = b'.flatten ++ r') (hr : startKind r = 0) (hr' : startKind r' = 0) :
    b = b' ∧ r = r' := by
  -- the first word tells which constructor `b'` has; the parts follow one after the other
  induction b generalizing b' r r' with
  | empty =>
    have hkind := kind_eq_of_append h hr hr'
    cases b' <;> cases hkind
    exact ⟨rfl, h⟩
  | plain i rest ih =>
    have hkind := kind_eq_of_append h hr hr'
    cases b' <;> cases hkind
    obtain ⟨hi, h⟩ := List.cons.inj h
    obtain ⟨rfl, rfl⟩ := ih h hr hr'
    exact ⟨by rw [Subtype.ext hi], rfl⟩
  | branch test body close rest ihb ihr =>
    have hkind := kind_eq_of_append h hr hr'
    cases b' <;> cases hkind
    simp only [Block.flatten, List.cons_append, List.append_assoc, List.cons.injEq] at h
    obtain ⟨htest, h⟩ := h
    obtain ⟨rfl, hend⟩ := ihb h (startKind_mark close _) (startKind_mark _ _)
    obtain ⟨hclose, hrest⟩ := List.cons.inj hend
    obtain ⟨rfl, rfl⟩ := ihr hrest hr hr'
    exact ⟨by rw [Subtype.ext htest, Subtype.ext hclose], rfl⟩
  | loop start cond test body back rest ihc ihb ihr =>
    have hkind := kind_eq_of_append h hr hr'
    cases b' <;> cases hkind
    simp only [Block.flatten, List.cons_append, List.append_assoc, List.cons.injEq] at h
    obtain ⟨hstart, h⟩ := h
    obtain ⟨rfl, hdo⟩ := ihc h (startKind_mark test _) (startKind_mark _ _)
    obtain ⟨htest, hbody⟩ := List.cons.inj hdo
    obtain ⟨rfl, hwend⟩ := ihb hbody (startKind_mark back _) (startKind_mark _ _)
    obtain ⟨hback, hrest⟩ := List.cons.inj hwend
    obtain ⟨rfl, rfl⟩ := ihr hrest hr hr'
    exact ⟨by rw [Subtype.ext hstart, Subtype.ext htest, Subtype.ext hback], rfl⟩

theorem flatten_inj {b b' : Block} (h : b.flatten = b'.flatten) : b = b' := by
  have h : b.flatten ++ [] = b'.flatten ++ [] := by rw [h]
  exact (flatten_append_inj h rfl rfl).1

end WordStack
