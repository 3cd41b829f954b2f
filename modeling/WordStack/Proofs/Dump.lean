import WordStack.Dump
import WordStack.Proofs.Program.Depth
import WordStack.Proofs.Text.Numeral
import WordStack.Proofs.Text.Quoted

/-!
# Dumps read back

The program in a dump can be read back from it. The text of an instruction ends where its operation
and its payload say, whatever is behind it: names of operations are no beginnings of each other, a
number ends at the parenthesis and a quoted word at its quote. So each line gives its instruction
and then its target, and what follows is the next line.

* `Instruction.render_append_inj`: the text of an instruction gives the instruction.
* `Dump.codeLine_append_inj`: a line gives its mark, its instruction and its target.
* `Dump.count_code`: there is one line for each instruction, behind the head.
* `Dump.code_identifies`: the text of a program gives the program and the position.
-/
namespace WordStack

/-- A text goes up to the first byte that is not in it. -/
theorem append_cons_inj {a b s t : Bytes} {x : UInt8} (ha : x ∉ a) (hb : x ∉ b)
    (h : a ++ x :: s = b ++ x :: t) : a = b ∧ s = t := by
  have hfront {c u : Bytes} (hc : x ∉ c) : (c ++ x :: u).takeWhile (· != x) = c := by
    have hne : ∀ y ∈ c, (y != x) = true := fun y hy => by
      rw [bne_iff_ne]
      rintro rfl
      exact hc hy
    rw [List.takeWhile_append_of_pos hne]
    simp
  obtain rfl : a = b := by rw [← hfront ha, h, hfront hb]
  exact ⟨rfl, (List.cons.inj (List.append_cancel_left h)).2⟩

/-! ## Numbers -/

namespace Decimal

theorem ofNat_ne_nil (n : Nat) : ofNat n ≠ [] := by simp [ofNat, Nat.toDigits_ne_nil]

/-- What is not a digit is not in a number. -/
theorem not_mem_ofNat {x : UInt8} (hx : isDigit x = false) (n : Nat) : x ∉ ofNat n := by
  intro hmem
  rw [List.all_eq_true.1 (all_isDigit_ofNat n) x hmem] at hx
  cases hx

theorem not_mem_ofInt {x : UInt8} (hx : isDigit x = false) (hsign : x ≠ 45) (n : Int) :
    x ∉ ofInt n := by
  cases n with
  | ofNat n => exact not_mem_ofNat hx n
  | negSucc n =>
    have hminus : bytes "-" = [45] := rfl
    rw [ofInt, hminus, List.mem_append, List.mem_singleton, not_or]
    exact ⟨hsign, not_mem_ofNat hx _⟩

/-- A number is read up to the byte that ends it. -/
theorem ofInt_append_inj {m n : Int} {x : UInt8} {s t : Bytes} (hx : isDigit x = false)
    (hsign : x ≠ 45) (h : ofInt m ++ x :: s = ofInt n ++ x :: t) : m = n ∧ s = t := by
  obtain ⟨hnumber, hst⟩ :=
    append_cons_inj (not_mem_ofInt hx hsign m) (not_mem_ofInt hx hsign n) h
  exact ⟨ofInt_inj hnumber, hst⟩

end Decimal

/-! ## Instructions -/

namespace Op

/-- No name is the beginning of another. -/
theorem eq_of_name_begins : ∀ op ∈ known, ∀ op' ∈ known, op.name <+: op'.name → op = op' := by
  decide

/-- The name at the front of a text gives the operation. -/
theorem name_append_inj {op op' : Op} {s t : Bytes} (h : op ∈ known) (h' : op' ∈ known)
    (heq : op.name ++ s = op'.name ++ t) : op = op' ∧ s = t := by
  obtain rfl : op = op' := by
    rcases List.prefix_or_prefix_of_prefix (List.prefix_append _ _) ⟨t, heq.symm⟩ with hp | hp
    · exact eq_of_name_begins op h op' h' hp
    · exact (eq_of_name_begins op' h' op h hp).symm
  exact ⟨rfl, List.append_cancel_left heq⟩

theorem name_inj {op op' : Op} (h : op ∈ known) (h' : op' ∈ known) (heq : op.name = op'.name) :
    op = op' :=
  eq_of_name_begins op h op' h' (heq ▸ List.prefix_rfl)

end Op

namespace Instruction

/-- An instruction of a known operation with no payload but that of the operation. -/
inductive Tidy : Instruction → Prop
  | push (n : Int32) : Tidy (.push n)
  | word (w : Bytes) : Tidy (.ofWord w)
  | keyword {op : Op} {k : Bytes} (h : op.keyword? = some k) : Tidy { op }

variable {i j : Instruction}

theorem Tidy.known (h : i.Tidy) : i.op ∈ Op.known := by
  cases h with
  | push n => exact List.mem_of_elem_eq_true rfl
  | word w => exact List.mem_of_elem_eq_true rfl
  | @keyword op k h => cases op <;> first | exact List.mem_of_elem_eq_true rfl | cases h

/-- What stands behind the name of the operation. -/
def payload (i : Instruction) : Bytes :=
  match i.op with
  | .push | .word => bytes "(" ++ i.argument ++ bytes ")"
  | _ => []

theorem render_eq (i : Instruction) : i.render = i.op.name ++ i.payload := by
  unfold render payload
  split <;> simp [*]

theorem payload_push_append (n : Int32) (s : Bytes) :
    (push n).payload ++ s = 40 :: (Decimal.ofInt n.toInt ++ 41 :: s) := by
  change 40 :: ((Decimal.ofInt n.toInt ++ [41]) ++ s) = _
  rw [List.append_assoc, List.singleton_append]

theorem payload_ofWord_append (w s : Bytes) :
    (ofWord w).payload ++ s = 40 :: (Quoted.quote w ++ 41 :: s) := by
  change 40 :: ((Quoted.quote w ++ [41]) ++ s) = _
  rw [List.append_assoc, List.singleton_append]

theorem payload_keyword {op : Op} {k : Bytes} (h : op.keyword? = some k) :
    ({ op } : Instruction).payload = [] := by
  cases op <;> first | rfl | cases h

theorem render_append_inj {s t : Bytes} (hi : i.Tidy) (hj : j.Tidy)
    (h : i.render ++ s = j.render ++ t) : i = j ∧ s = t := by
  rw [render_eq, render_eq, List.append_assoc, List.append_assoc] at h
  obtain ⟨hop, hpayload⟩ := Op.name_append_inj hi.known hj.known h
  cases hi with
  | push n =>
    cases hj with
    | push m =>
      rw [payload_push_append, payload_push_append] at hpayload
      obtain ⟨hnm, hst⟩ := Decimal.ofInt_append_inj rfl (by decide) (List.cons.inj hpayload).2
      exact ⟨by rw [Int32.toInt_inj.1 hnm], hst⟩
    | word w => cases hop
    | keyword hk => cases hop; cases hk
  | word w =>
    cases hj with
    | push m => cases hop
    | word v =>
      rw [payload_ofWord_append, payload_ofWord_append] at hpayload
      obtain ⟨hwv, hst⟩ := Quoted.quote_append_inj (List.cons.inj hpayload).2
      exact ⟨by rw [hwv], (List.cons.inj hst).2⟩
    | keyword hk => cases hop; cases hk
  | keyword hk =>
    cases hj with
    | push m => cases hop; cases hk
    | word v => cases hop; cases hk
    | keyword hk' =>
      rw [payload_keyword hk, payload_keyword hk'] at hpayload
      exact ⟨by rw [Instruction.mk.injEq]; exact ⟨hop, rfl, rfl⟩, hpayload⟩

theorem lineFeed_not_mem_render (hi : i.Tidy) : lineFeed ∉ i.render := by
  have hname : ∀ op ∈ Op.known, lineFeed ∉ op.name := by decide
  have hparens {b : Bytes} (hb : lineFeed ∉ b) : lineFeed ∉ bytes "(" ++ b ++ bytes ")" := by
    rw [List.mem_append, List.mem_append, not_or, not_or]
    exact ⟨⟨by decide, hb⟩, by decide⟩
  have hpayload : lineFeed ∉ i.payload := by
    cases hi with
    | push n => exact hparens (Decimal.not_mem_ofInt rfl (by decide) _)
    | word w => exact hparens (Quoted.lineFeed_not_mem_quote w)
    | keyword hk => rw [payload_keyword hk]; exact List.not_mem_nil
  rw [render_eq, List.mem_append, not_or]
  exact ⟨hname _ hi.known, hpayload⟩

end Instruction

/-! ## Lines -/

namespace Dump

/-- The mark in front of a line. -/
def mark (next : Int) (position : Nat) : Bytes :=
  if next = position then bytes "*" else bytes " "

/-- The target at the end of a line. -/
def arrow : Option Int → Bytes
  | some t => bytes " -> @" ++ Decimal.ofInt t
  | none => []

variable {p q : Program} {n m : Int} {i j : Instruction} {s t : Bytes}

/-- A line in its parts, and what is behind it. -/
theorem codeLine_append (p : Program) (n : Int) (k : Nat) (i : Instruction) (s : Bytes) :
    ∃ blanks, codeLine p n k i ++ s =
      mark n k ++ (bytes " @" ++ (List.replicate blanks 32 ++ (Decimal.ofNat k ++ (bytes " " ++
        (i.render ++ (arrow (p.target? k) ++ lineFeed :: s)))))) := by
  refine ⟨(Decimal.ofNat p.size).length - (Decimal.ofNat k).length, ?_⟩
  have hend : bytes "\n" ++ s = lineFeed :: s := rfl
  simp only [codeLine, List.append_assoc, hend]
  rfl

theorem codeLine_ne_nil (p : Program) (n : Int) (k : Nat) (i : Instruction) :
    codeLine p n k i ≠ [] :=
  List.append_ne_nil_of_right_ne_nil _ (by decide)

theorem mark_append_inj {k : Nat} (h : mark n k ++ s = mark m k ++ t) :
    (n = k ↔ m = k) ∧ s = t := by
  unfold mark at h
  split at h <;> split at h
  · next hn hm => exact ⟨iff_of_true hn hm, List.append_cancel_left h⟩
  · exact absurd (List.cons.inj h).1 (by decide)
  · exact absurd (List.cons.inj h).1 (by decide)
  · next hn hm => exact ⟨iff_of_false hn hm, List.append_cancel_left h⟩

/-- However far a number is moved to the right, it is followed by the same. -/
theorem number_append_inj {a b k : Nat}
    (h : List.replicate a 32 ++ (Decimal.ofNat k ++ s) =
      List.replicate b 32 ++ (Decimal.ofNat k ++ t)) : s = t := by
  obtain ⟨d, ds, hk⟩ := List.exists_cons_of_ne_nil (Decimal.ofNat_ne_nil k)
  have hdigit : Decimal.isDigit d = true :=
    List.all_eq_true.1 (Decimal.all_isDigit_ofNat k) d (by simp [hk])
  have hd (l : Nat) : d ∉ List.replicate l 32 := by
    intro hmem
    obtain rfl := (List.mem_replicate.1 hmem).2
    exact absurd hdigit (by decide)
  rw [hk, List.cons_append, List.cons_append] at h
  exact List.append_cancel_left (append_cons_inj (hd a) (hd b) h).2

theorem arrow_append_inj {u v : Option Int}
    (h : arrow u ++ lineFeed :: s = arrow v ++ lineFeed :: t) : u = v ∧ s = t := by
  cases u <;> cases v
  · exact ⟨rfl, (List.cons.inj h).2⟩
  · exact absurd (List.cons.inj h).1 (by decide)
  · exact absurd (List.cons.inj h).1 (by decide)
  · rw [arrow, arrow, List.append_assoc, List.append_assoc] at h
    obtain ⟨rfl, hst⟩ :=
      Decimal.ofInt_append_inj rfl (by decide) (List.append_cancel_left h)
    exact ⟨rfl, hst⟩

theorem codeLine_append_inj {k : Nat} (hi : i.Tidy) (hj : j.Tidy)
    (h : codeLine p n k i ++ s = codeLine q m k j ++ t) :
    (n = k ↔ m = k) ∧ i = j ∧ p.target? k = q.target? k ∧ s = t := by
  obtain ⟨a, ha⟩ := codeLine_append p n k i s
  obtain ⟨b, hb⟩ := codeLine_append q m k j t
  rw [ha, hb] at h
  obtain ⟨hmark, h⟩ := mark_append_inj h
  have h := number_append_inj (List.append_cancel_left h)
  obtain ⟨hij, h⟩ := Instruction.render_append_inj hi hj (List.append_cancel_left h)
  obtain ⟨htarget, hst⟩ := arrow_append_inj h
  exact ⟨hmark, hij, htarget, hst⟩

theorem count_arrow (t : Option Int) : (arrow t).count lineFeed = 0 := by
  rw [List.count_eq_zero]
  cases t with
  | none => exact List.not_mem_nil
  | some t =>
    rw [arrow, List.mem_append, not_or]
    exact ⟨by decide, Decimal.not_mem_ofInt rfl (by decide) t⟩

/-- A line ends in the only line feed that is in it. -/
theorem count_codeLine (p : Program) (n : Int) (k : Nat) (hi : i.Tidy) :
    (codeLine p n k i).count lineFeed = 1 := by
  obtain ⟨blanks, hline⟩ := codeLine_append p n k i []
  have hmark : (mark n k).count lineFeed = 0 := by
    unfold mark
    split <;> decide
  have hblanks : (List.replicate blanks (32 : UInt8)).count lineFeed = 0 := by
    rw [List.count_replicate, if_neg (by decide)]
  have hat : (bytes " @").count lineFeed = 0 := by decide
  have hblank : (bytes " ").count lineFeed = 0 := by decide
  rw [List.append_nil] at hline
  rw [hline]
  simp only [List.count_append, List.count_cons_self, List.count_nil, hmark, hat, hblanks, hblank,
    List.count_eq_zero.2 (Decimal.not_mem_ofNat (x := lineFeed) rfl k),
    List.count_eq_zero.2 (Instruction.lineFeed_not_mem_render hi), count_arrow]

/-! ## Programs -/

/-- The lines of some instructions from a position on. -/
def codeFrom (p : Program) (n : Int) : (position : Nat) → List Instruction → Bytes
  | _, [] => []
  | k, i :: c => codeLine p n k i ++ codeFrom p n (k + 1) c

theorem codeFrom_eq (p : Program) (n : Int) (k : Nat) (c : List Instruction) :
    codeFrom p n k c = (c.mapIdx fun l => codeLine p n (k + l)).flatten := by
  induction c generalizing k with
  | nil => rfl
  | cons i c ih =>
    rw [codeFrom, ih, List.mapIdx_cons, List.flatten_cons]
    simp only [Nat.add_zero, Nat.add_assoc, Nat.add_comm 1]

theorem code_eq (p : Program) (n : Int) :
    code p n = bytes "# Program\n" ++ codeFrom p n 0 p.code.toList := by
  rw [codeFrom_eq, code]
  simp only [Nat.zero_add]

theorem codeFrom_inj {c d : List Instruction} {k : Nat} (hc : ∀ i ∈ c, i.Tidy)
    (hd : ∀ i ∈ d, i.Tidy) (h : codeFrom p n k c = codeFrom q m k d) :
    c = d ∧ ∀ l, k ≤ l → l < k + c.length → (n = l ↔ m = l) := by
  induction c generalizing d k with
  | nil =>
    cases d with
    | nil => exact ⟨rfl, by simp; omega⟩
    | cons j d => exact absurd (List.append_eq_nil_iff.1 h.symm).1 (codeLine_ne_nil q m k j)
  | cons i c ih =>
    cases d with
    | nil => exact absurd (List.append_eq_nil_iff.1 h).1 (codeLine_ne_nil p n k i)
    | cons j d =>
      simp only [List.mem_cons, forall_eq_or_imp] at hc hd
      obtain ⟨hmark, rfl, -, hlater⟩ := codeLine_append_inj hc.1 hd.1 h
      obtain ⟨rfl, hmarks⟩ := ih hc.2 hd.2 hlater
      refine ⟨rfl, fun l hl hlt => ?_⟩
      rcases Nat.eq_or_lt_of_le hl with rfl | hgt
      · exact hmark
      · exact hmarks l hgt (by rw [List.length_cons] at hlt; omega)

theorem count_codeFrom {c : List Instruction} (hc : ∀ i ∈ c, i.Tidy) (k : Nat) :
    (codeFrom p n k c).count lineFeed = c.length := by
  induction c generalizing k with
  | nil => rfl
  | cons i c ih =>
    simp only [List.mem_cons, forall_eq_or_imp] at hc
    rw [codeFrom, List.count_append, count_codeLine p n k hc.1, ih hc.2, List.length_cons,
      Nat.add_comm]

theorem count_code {c : List Instruction} (hc : ∀ i ∈ c, i.Tidy)
    (hp : Program.resolve c = .ok p) (n : Int) : (code p n).count lineFeed = p.size + 1 := by
  have hhead : (bytes "# Program\n").count lineFeed = 1 := by decide
  rw [code_eq, List.count_append, hhead, Program.code_of_resolve hp, count_codeFrom hc,
    Program.size_of_resolve hp, Nat.add_comm]

/-- A position is known by the lines that it marks. -/
theorem eq_of_marks {l : Nat} (hn : 0 ≤ n ∧ n ≤ l) (hm : 0 ≤ m ∧ m ≤ l)
    (h : ∀ k < l, n = (k : Nat) ↔ m = (k : Nat)) : n = m := by
  by_cases hlt : n < l
  · have := (h n.toNat (by omega)).1 (by omega)
    omega
  · by_cases hlt' : m < l
    · have := (h m.toNat (by omega)).2 (by omega)
      omega
    · omega

/-- A dump of a program has a head and one line for each instruction, and no other program and no
other position has the same dump. -/
theorem code_identifies {c d : List Instruction} (hc : ∀ i ∈ c, i.Tidy) (hd : ∀ i ∈ d, i.Tidy)
    (hp : Program.resolve c = .ok p) (hq : Program.resolve d = .ok q) (hn : 0 ≤ n ∧ n ≤ p.size)
    (hm : 0 ≤ m ∧ m ≤ q.size) :
    (code p n).count lineFeed = p.size + 1 ∧
      (code p n = code q m → p.code = q.code ∧ p.targets = q.targets ∧ n = m) := by
  refine ⟨count_code hc hp n, fun h => ?_⟩
  rw [code_eq, code_eq, Program.code_of_resolve hp, Program.code_of_resolve hq] at h
  obtain ⟨rfl, hmarks⟩ := codeFrom_inj hc hd (List.append_cancel_left h)
  obtain rfl : p = q := by
    rw [hp] at hq
    exact Except.ok.inj hq
  rw [Program.size_of_resolve hp] at hn hm
  exact ⟨rfl, rfl, eq_of_marks hn hm fun k hk => hmarks k k.zero_le (by omega)⟩

/-- A word with a quote, a target, a line feed and a stray byte in it, and the word that is written
as that one is quoted. -/
theorem code_identifies_quoting :
    let c (w : Bytes) : List Instruction := [{ op := .ifTest }, .ofWord w, { op := .endMark }]
    let p (w : Bytes) : Program := ⟨(c w).toArray, #[some 2, none, none]⟩
    let w := bytes "x\") -> @2\n" ++ [255]
    let v := bytes "x\\\") -> @2\\n\\xff"
    (∀ i ∈ c w, i.Tidy) ∧ (∀ i ∈ c v, i.Tidy) ∧ Program.resolve (c w) = .ok (p w) ∧
      Program.resolve (c v) = .ok (p v) ∧ (0 ≤ (3 : Int) ∧ 3 ≤ ((p w).size : Int)) ∧
      (code (p w) 3).count lineFeed = 4 ∧ code (p w) 3 ≠ code (p v) 3 := by
  intro c p w v
  have htidy (u : Bytes) : ∀ i ∈ c u, i.Tidy := by
    simp only [c, List.mem_cons, List.not_mem_nil, or_false, forall_eq_or_imp, forall_eq]
    exact ⟨.keyword rfl, .word u, .keyword rfl⟩
  have hp (u : Bytes) : Program.resolve (c u) = .ok (p u) := rfl
  have hn (u : Bytes) : 0 ≤ (3 : Int) ∧ 3 ≤ ((p u).size : Int) := ⟨by decide, Int.le_refl 3⟩
  obtain ⟨hcount, hinj⟩ := code_identifies (htidy w) (htidy v) (hp w) (hp v) (hn w) (hn v)
  refine ⟨htidy w, htidy v, hp w, hp v, hn w, hcount, fun h => ?_⟩
  exact absurd (hinj h).1 (by decide)

end Dump

end WordStack
