import WordStack.Proofs.Block.Syntax

/-!
# Which code is the code of a block

Resolving does not compare the kinds of the words that meet, but its table tells them. Code is the
code of a block if and only if it resolves and the table is well kinded (`Program.Kinded`): `if`
points to an `end`, `do` to a `wend`, `wend` to a `while`, all else points nowhere, and every
`while` is pointed to by a `wend`.

From a block to the table is an induction over the block in place (`kinded_of_placed`). The way back
goes through the depth: a stretch of code that never goes below the depth it starts at, and ends
there, is the code of a block (`exists_block`), by what its first word points to.
-/
namespace WordStack

namespace Program

/-- The operation at a position. -/
def opAt? (p : Program) (k : Nat) : Option Op := (p.fetch? k).map (·.op)

/-- The word at `k` points to a word of the right kind, and to none if it is no `if`, `do` or
`wend`; if it is a `while`, some `wend` points to it. -/
def Kinded (p : Program) (k : Nat) : Prop :=
  match p.opAt? k with
  | some .ifTest => ∃ t : Nat, p.target? k = some (t : Int) ∧ p.opAt? t = some .endMark
  | some .doTest => ∃ t : Nat, p.target? k = some (t : Int) ∧ p.opAt? t = some .wend
  | some .wend => ∃ t : Nat, p.target? k = some (t : Int) ∧ p.opAt? t = some .whileMark
  | some .whileMark =>
    p.target? k = none ∧ ∃ j : Nat, p.opAt? j = some .wend ∧ p.target? j = some (k : Int)
  | _ => p.target? k = none

section
variable {code : List Instruction} {p : Program}

theorem opAt?_of_resolve (hp : resolve code = .ok p) {k : Nat} {i : Instruction}
    (hi : code[k]? = some i) : p.opAt? k = some i.op := by
  rw [opAt?, fetch?_of_resolve hp, hi]; rfl

theorem hasOp_iff (hp : resolve code = .ok p) (k : Nat) (op : Op) :
    HasOp code k op ↔ p.opAt? k = some op := by
  rw [opAt?, fetch?_of_resolve hp, Option.map_eq_some_iff]; rfl

/-- A word that neither opens nor jumps back points nowhere. -/
theorem target?_eq_none (hp : resolve code = .ok p) {k : Nat} (ho : ¬ OpensAt code k)
    (hw : ¬ HasOp code k .wend) : p.target? k = none := by
  obtain ⟨-, he⟩ := entries_of_resolve hp
  rw [target?_natCast]
  rcases Nat.lt_or_ge k code.length with hk | hk
  · rw [he.blank k hk hw fun h => absurd h ho]; rfl
  · rw [Array.getElem?_eq_none (by rw [he.size]; exact hk)]; rfl

theorem kinded_of_blank {k : Nat} {op : Op} (hop : p.opAt? k = some op)
    (hkind : op.isPlain = true ∨ op = .endMark) (ht : p.target? k = none) : p.Kinded k := by
  unfold Kinded
  rw [hop]
  cases op <;> simp_all [Op.isPlain]

/-- A plain instruction, or an `end`, is blank. -/
theorem kinded_of_getElem? (hp : resolve code = .ok p) {k : Nat} {i : Instruction}
    (hi : code[k]? = some i) (hkind : i.op.isPlain = true ∨ i.op = .endMark) : p.Kinded k := by
  have hop := opAt?_of_resolve hp hi
  refine kinded_of_blank hop hkind (target?_eq_none hp ?_ ?_)
  · rintro ⟨i', hi', ho⟩
    rw [hi] at hi'; cases hi'
    rcases hkind with h | h
    · cases hop' : i.op <;> simp_all [Op.isPlain, Op.isOpener]
    · rw [h] at ho; cases ho
  · rintro ⟨i', hi', hw⟩
    rw [hi] at hi'; cases hi'
    rw [hw] at hkind
    simp [Op.isPlain] at hkind

/-- The table is well kinded along every block in place. -/
theorem kinded_of_placed (hp : resolve code = .ok p) (b : Block) {pos k : Nat}
    (h : Placed code pos b) (hpos : pos ≤ k) (hk : k < pos + b.size) : p.Kinded k := by
  induction b generalizing pos with
  | empty => rw [Block.size_empty] at hk; omega
  | plain i rest ih =>
    obtain ⟨hi, hrest⟩ := h.plain
    rw [Block.size_plain] at hk
    by_cases hkp : k = pos
    · subst hkp
      exact kinded_of_getElem? hp hi (Or.inl i.property)
    · exact ih hrest (by omega) (by omega)
  | branch test body close rest ihb ihr =>
    obtain ⟨htest, hclose, htarget, hbody, hrest⟩ := h.branch hp
    rw [Block.size_branch] at hk
    by_cases hkp : k = pos
    · subst hkp
      have hop := opAt?_of_resolve hp hclose
      rw [close.property] at hop
      simp only [Kinded, opAt?_of_resolve hp htest, test.property]
      exact ⟨_, htarget, hop⟩
    by_cases hkc : k = pos + body.size + 1
    · subst hkc
      exact kinded_of_getElem? hp hclose (Or.inr close.property)
    rcases Nat.lt_or_ge k (pos + body.size + 1) with hlt | hge
    · exact ihb hbody (by omega) (by omega)
    · exact ihr hrest (by omega) (by omega)
  | loop start cond test body back rest ihc ihb ihr =>
    obtain ⟨hstart, htest, hback, hblank, hdo, hwend, hcond, hbody, hrest⟩ := h.loop hp
    have hopstart := opAt?_of_resolve hp hstart
    have hopback := opAt?_of_resolve hp hback
    rw [start.property] at hopstart
    rw [back.property] at hopback
    rw [Block.size_loop] at hk
    by_cases hkp : k = pos
    · subst hkp
      simp only [Kinded, hopstart]
      exact ⟨hblank, _, hopback, hwend⟩
    by_cases hkt : k = pos + cond.size + 1
    · subst hkt
      simp only [Kinded, opAt?_of_resolve hp htest, test.property]
      exact ⟨_, hdo, hopback⟩
    by_cases hkb : k = pos + cond.size + body.size + 2
    · subst hkb
      simp only [Kinded, hopback]
      exact ⟨_, hwend, hopstart⟩
    rcases Nat.lt_or_ge k (pos + cond.size + 1) with hlt | hge
    · exact ihc hcond (by omega) (by omega)
    rcases Nat.lt_or_ge k (pos + cond.size + body.size + 2) with hlt | hge
    · exact ihb hbody (by omega) (by omega)
    · exact ihr hrest (by omega) (by omega)

/-! ## From the table back to a block -/

theorem closes_of_target (hp : resolve code = .ok p) {i j : Nat} (ho : OpensAt code i)
    (ht : p.target? i = some (j : Int)) : Closes code i j := by
  obtain ⟨m, hm, hc⟩ := exists_closes_of_target hp ho ht
  rw [Int.ofNat.inj hm]; exact hc

theorem closes_of_pointed (hp : resolve code = .ok p) {i j : Nat} (hw : HasOp code j .wend)
    (ht : p.target? j = some (i : Int)) : Closes code i j ∧ depth code (j + 1) = depth code i := by
  obtain ⟨m, hm, hc⟩ := exists_closes_of_wend hp hw
  rw [ht] at hm
  rw [Int.ofNat.inj (Option.some.inj hm)]; exact hc

/-- The stretch of code from `a` up to `b` never goes below the depth it starts at, and ends
there. -/
structure Stretch (code : List Instruction) (a b : Nat) : Prop where
  le : a ≤ b
  inside : b ≤ code.length
  total : depth code b = depth code a
  above : ∀ m, a ≤ m → m ≤ b → depth code a ≤ depth code m

theorem stretch_split {a j b : Nat} {i : Instruction} (ha : a ≤ j) (hj : j < b)
    (hi : code[j]? = some i) :
    (code.take b).drop a = (code.take j).drop a ++ i :: (code.take b).drop (j + 1) := by
  have hget : (code.take b)[j]? = some i := by rw [List.getElem?_take_of_lt hj]; exact hi
  obtain ⟨hlen, hval⟩ := List.getElem?_eq_some_iff.mp hget
  have hcons : (code.take b).drop j = i :: (code.take b).drop (j + 1) := by
    rw [List.drop_eq_getElem_cons hlen, hval]
  have hfront : (code.take b).take j = code.take j := by
    rw [List.take_take, Nat.min_eq_left (Nat.le_of_lt hj)]
  calc (code.take b).drop a
      = ((code.take b).take j ++ (code.take b).drop j).drop a := by rw [List.take_append_drop]
    _ = (code.take j).drop a ++ (code.take b).drop j := by
        rw [hfront, List.drop_append_of_le_length (by rw [List.length_take]; simp at hlen; omega)]
    _ = _ := by rw [hcons]

/-- What opens on the ground level of a stretch is closed in it. -/
theorem Stretch.lt_of_closes {a b j : Nat} (hs : Stretch code a b) (hab : a < b)
    (ho : OpensAt code a) (hc : Closes code a j) : j < b := by
  rcases Nat.lt_or_ge j b with h | h
  · exact h
  · have := depth_lt_of_open ho hab fun m ham hmb => hc.first m ham (by omega)
    have := hs.total; omega

/-- Between an opener and the word that closes it, and behind that word. -/
theorem Stretch.parts {a b j : Nat} (hs : Stretch code a b) (hab : a < b) (ho : OpensAt code a)
    (hc : Closes code a j) (hd : depth code (j + 1) = depth code a) :
    (∀ m, a < m → m ≤ j → depth code a < depth code m) ∧ Stretch code (j + 1) b := by
  have hj := hs.lt_of_closes hab ho hc
  refine ⟨?_, by omega, hs.inside, by rw [hs.total, hd], ?_⟩
  · intro m ham hm
    exact depth_lt_of_open ho ham fun k hk hkm => hc.first k hk (by omega)
  · intro m hm hmb
    rw [hd]; exact hs.above m (by have := hc.lt; omega) hmb

/-- The stretch from `a` up to `b` is the code of a block. -/
def IsBlock (code : List Instruction) (a b : Nat) : Prop :=
  ∃ blk : Block, blk.flatten = (code.take b).drop a

theorem isBlock_empty (a : Nat) : IsBlock code a a :=
  ⟨.empty, by rw [Block.flatten, List.drop_eq_nil_of_le (by rw [List.length_take]; omega)]⟩

theorem isBlock_plain {a b : Nat} {i : Instruction} (hab : a < b) (hi : code[a]? = some i)
    (hplain : i.op.isPlain = true) (hrest : IsBlock code (a + 1) b) : IsBlock code a b := by
  obtain ⟨rest, hrest⟩ := hrest
  refine ⟨.plain ⟨i, hplain⟩ rest, ?_⟩
  rw [stretch_split (Nat.le_refl a) hab hi, List.drop_eq_nil_of_le (by rw [List.length_take]; omega),
    Block.flatten, hrest]
  rfl

theorem isBlock_branch {a j b : Nat} (haj : a < j) (hjb : j < b) (hif : HasOp code a .ifTest)
    (hend : HasOp code j .endMark) (hbody : IsBlock code (a + 1) j)
    (hrest : IsBlock code (j + 1) b) : IsBlock code a b := by
  obtain ⟨i, hi, hop⟩ := hif
  obtain ⟨c, hc, hcop⟩ := hend
  obtain ⟨body, hbody⟩ := hbody
  obtain ⟨rest, hrest⟩ := hrest
  refine ⟨.branch ⟨i, hop⟩ body ⟨c, hcop⟩ rest, ?_⟩
  rw [stretch_split (Nat.le_refl a) (by omega) hi, List.drop_eq_nil_of_le
    (by rw [List.length_take]; omega), stretch_split (by omega) hjb hc, Block.flatten, hbody, hrest]
  rfl

theorem isBlock_loop {a d j b : Nat} (had : a < d) (hdj : d < j) (hjb : j < b)
    (hwhile : HasOp code a .whileMark) (hdo : HasOp code d .doTest) (hwend : HasOp code j .wend)
    (hcond : IsBlock code (a + 1) d) (hbody : IsBlock code (d + 1) j)
    (hrest : IsBlock code (j + 1) b) : IsBlock code a b := by
  obtain ⟨i, hi, hop⟩ := hwhile
  obtain ⟨t, ht, htop⟩ := hdo
  obtain ⟨c, hc, hcop⟩ := hwend
  obtain ⟨cond, hcond⟩ := hcond
  obtain ⟨body, hbody⟩ := hbody
  obtain ⟨rest, hrest⟩ := hrest
  refine ⟨.loop ⟨i, hop⟩ cond ⟨t, htop⟩ body ⟨c, hcop⟩ rest, ?_⟩
  rw [stretch_split (Nat.le_refl a) (by omega) hi, List.drop_eq_nil_of_le
    (by rw [List.length_take]; omega), stretch_split (by omega) (by omega) ht,
    stretch_split (by omega) hjb hc, Block.flatten, hcond, hbody, hrest]
  rfl

section
variable {a b : Nat} (hp : resolve code = .ok p) (hkind : ∀ k, p.Kinded k)
  (hs : Stretch code a b) (hab : a < b)

include hp hkind hs hab

/-- An `if` on the ground level of a stretch: its `end`, and the two stretches around it. -/
theorem Stretch.branch (hif : HasOp code a .ifTest) :
    ∃ j, a < j ∧ j < b ∧ HasOp code j .endMark ∧ Stretch code (a + 1) j ∧
      Stretch code (j + 1) b := by
  have ho : OpensAt code a := by
    obtain ⟨i, hi, hop⟩ := hif
    exact ⟨i, hi, by rw [hop]; rfl⟩
  have hk := hkind a
  simp only [Kinded, (hasOp_iff hp a _).mp hif] at hk
  obtain ⟨j, ht, hend⟩ := hk
  have hend := (hasOp_iff hp j _).mpr hend
  have hc := closes_of_target hp ho ht
  have hlow := hc.low
  have hin := depth_lt_of_open ho hc.lt hc.first
  have hstep := depth_succ_of_end hend
  obtain ⟨hmid, hrest⟩ := hs.parts hab ho hc (by omega)
  have hup := depth_succ_of_opens ho
  exact ⟨j, hc.lt, hs.lt_of_closes hab ho hc, hend,
    ⟨hc.lt, Nat.le_of_lt hc.inside, by omega, fun m hm hmj => by have := hmid m hm hmj; omega⟩,
    hrest⟩

/-- A `while` on the ground level of a stretch: its `do`, its `wend`, and the three stretches around
them. -/
theorem Stretch.loop (hwhile : HasOp code a .whileMark) :
    ∃ d j, a < d ∧ d < j ∧ j < b ∧ HasOp code d .doTest ∧ HasOp code j .wend ∧
      Stretch code (a + 1) d ∧ Stretch code (d + 1) j ∧ Stretch code (j + 1) b := by
  have ho : OpensAt code a := by
    obtain ⟨i, hi, hop⟩ := hwhile
    exact ⟨i, hi, by rw [hop]; rfl⟩
  have hk := hkind a
  simp only [Kinded, (hasOp_iff hp a _).mp hwhile] at hk
  obtain ⟨-, j, hwend, ht⟩ := hk
  have hwend := (hasOp_iff hp j _).mpr hwend
  obtain ⟨hc, hd⟩ := closes_of_pointed hp hwend ht
  obtain ⟨hmid, hrest⟩ := hs.parts hab ho hc hd
  have hup := depth_succ_of_opens ho
  have hdown := depth_succ_of_wend hwend
  -- the word that lifts the depth to what the `wend` finds is the `do`
  obtain ⟨d, had, hdj, hod, hdd, habove⟩ := exists_rise
    (show depth code (a + 1) ≤ depth code a + 1 by omega)
    (show depth code a + 1 < depth code j by omega) hc.lt
  have hcd : Closes code d j := ⟨hdj, hc.inside, by omega, fun k hk hkj => by
    have := habove (k + 1) (by omega) (by omega); omega⟩
  have hdo : HasOp code d .doTest := by
    obtain ⟨-, he⟩ := entries_of_resolve hp
    have htd : p.target? d = some (j : Int) := by
      rw [target?_natCast, he.inner d j hod hcd hcd.inside (by omega)]; rfl
    obtain ⟨i, hi, hio⟩ := hod
    have hkd := hkind d
    unfold Kinded at hkd
    rw [opAt?_of_resolve hp hi, htd] at hkd
    refine ⟨i, hi, ?_⟩
    cases hop : i.op <;> rw [hop] at hio hkd <;> cases hio
    · obtain ⟨t, htt, hend⟩ := hkd
      simp only [Option.some.injEq] at htt
      obtain rfl : j = t := by omega
      exact absurd (((hasOp_iff hp j _).mpr hend).unique hwend) (by decide)
    · cases hkd.1
  have hupd := depth_succ_of_opens hod
  refine ⟨d, j, by omega, hdj, hs.lt_of_closes hab ho hc, hdo, hwend, ?_, ?_, hrest⟩
  · exact ⟨had, Nat.le_of_lt hod.lt, by omega, fun m hm hmd => by
      have := hmid m (by omega) (by omega); omega⟩
  · exact ⟨hdj, Nat.le_of_lt hc.inside, by omega, fun m hm hmj => by
      have := habove m (by omega) hmj; omega⟩

/-- No `do` stands on the ground level of a stretch. -/
theorem Stretch.not_do : ¬ HasOp code a .doTest := by
  intro hdo
  have ho : OpensAt code a := by
    obtain ⟨i, hi, hop⟩ := hdo
    exact ⟨i, hi, by rw [hop]; rfl⟩
  have hk := hkind a
  simp only [Kinded, (hasOp_iff hp a _).mp hdo] at hk
  obtain ⟨j, ht, hwend⟩ := hk
  have hwend := (hasOp_iff hp j _).mpr hwend
  have hc := closes_of_target hp ho ht
  have hjb := hs.lt_of_closes hab ho hc
  have hlow := hc.low
  have := hs.above (j + 1) (by have := hc.lt; omega) (by omega)
  obtain ⟨-, he⟩ := entries_of_resolve hp
  rw [target?_natCast, (he.outer a j ho hc hc.inside hwend (by omega)).1] at ht
  cases ht

end

/-- A well kinded stretch is the code of a block. -/
theorem exists_block (hp : resolve code = .ok p) (hkind : ∀ k, p.Kinded k)
    (hknown : ∀ i ∈ code, i.op ∈ Op.known) (n : Nat) :
    ∀ {a b : Nat}, b - a ≤ n → Stretch code a b → IsBlock code a b := by
  induction n with
  | zero =>
    intro a b hn hs
    obtain rfl : a = b := by have := hs.le; omega
    exact isBlock_empty a
  | succ n ih =>
    intro a b hn hs
    have hle := hs.le
    have hin := hs.inside
    by_cases hab : a = b
    · subst hab; exact isBlock_empty a
    have hab : a < b := by omega
    have habove := hs.above (a + 1) (by omega) (by omega)
    obtain ⟨i, hi⟩ : ∃ i, code[a]? = some i := ⟨code.get ⟨a, by omega⟩, by simp⟩
    have hweight := depth_succ hi
    by_cases hif : i.op = .ifTest
    · obtain ⟨j, haj, hjb, hend, hbody, hrest⟩ := hs.branch hp hkind hab ⟨i, hi, hif⟩
      exact isBlock_branch haj hjb ⟨i, hi, hif⟩ hend (ih (by omega) hbody) (ih (by omega) hrest)
    by_cases hwhile : i.op = .whileMark
    · obtain ⟨d, j, had, hdj, hjb, hdo, hwend, hcond, hbody, hrest⟩ :=
        hs.loop hp hkind hab ⟨i, hi, hwhile⟩
      exact isBlock_loop had hdj hjb ⟨i, hi, hwhile⟩ hdo hwend (ih (by omega) hcond)
        (ih (by omega) hbody) (ih (by omega) hrest)
    -- no other block word starts a stretch
    have hplain : i.op.isPlain = true := by
      have hmem := hknown i (List.mem_of_getElem? hi)
      have hdo : i.op ≠ .doTest := fun h => hs.not_do hp hkind hab ⟨i, hi, h⟩
      have hlow : 0 ≤ i.op.weight := by omega
      cases hop : i.op with
      | ifTest => exact absurd hop hif
      | whileMark => exact absurd hop hwhile
      | doTest => exact absurd hop hdo
      | endMark | wend => rw [hop] at hlow; exact absurd hlow (by decide)
      | unknown past => rw [hop] at hmem; simp [Op.known] at hmem
      | _ => rfl
    have hzero := Op.weight_of_isPlain hplain
    refine isBlock_plain hab hi hplain (ih (by omega) ⟨hab, hin, ?_, ?_⟩)
    · rw [hs.total]; omega
    · intro m hm hmb
      have := hs.above m (by omega) hmb; omega

/-- Well kinded code leaves no block open. -/
theorem depth_length (hp : resolve code = .ok p) (hkind : ∀ k, p.Kinded k) :
    depth code code.length = 0 := by
  obtain ⟨hn, he⟩ := entries_of_resolve hp
  have hnonneg := depth_nonneg hn (Nat.le_refl code.length)
  by_cases hpos : 0 < depth code code.length
  · exfalso
    obtain ⟨d, -, -, ho, hd, habove⟩ := exists_rise (Int.le_of_eq depth_zero) hpos (Nat.zero_le _)
    have hopen : ∀ j, ¬ Closes code d j := by
      intro j hc
      have := habove (j + 1) (by have := hc.lt; omega) hc.inside
      have := hc.low; omega
    have hblank : p.target? d = none := by
      rw [target?_natCast, he.blank d ho.lt (fun hw => ho.not_hasOp rfl hw) fun _ j _ => hopen j]
      rfl
    obtain ⟨i, hi, hio⟩ := ho
    have hkd := hkind d
    unfold Kinded at hkd
    rw [opAt?_of_resolve hp hi, hblank] at hkd
    cases hop : i.op <;> rw [hop] at hio hkd <;> cases hio
    · obtain ⟨t, ht, -⟩ := hkd; cases ht
    · obtain ⟨-, j, hwend, ht⟩ := hkd
      exact hopen j (closes_of_pointed hp ((hasOp_iff hp j _).mpr hwend) ht).1
    · obtain ⟨t, ht, -⟩ := hkd; cases ht
  · omega

end

/-- **The grammar of blocks.** Code of known operations is the code of a block if and only if it
resolves to a well kinded program, and then of one block only. -/
theorem flatten_iff_kinded (code : List Instruction) (hknown : ∀ i ∈ code, i.op ∈ Op.known) :
    ((∃ b : Block, b.flatten = code) ↔ ∃ p, resolve code = .ok p ∧ ∀ k, p.Kinded k) ∧
      ∀ b b' : Block, b.flatten = code → b'.flatten = code → b = b' := by
  refine ⟨⟨?_, ?_⟩, fun b b' h h' => flatten_inj (h.trans h'.symm)⟩
  · rintro ⟨b, rfl⟩
    obtain ⟨p, hp, -⟩ := resolve_flatten b
    refine ⟨p, hp, ?_⟩
    intro k
    rcases Nat.lt_or_ge k b.size with hk | hk
    · exact kinded_of_placed hp b (placed_self b) (Nat.zero_le k) (by omega)
    · have hnone : b.flatten[k]? = none := List.getElem?_eq_none hk
      have hop : p.opAt? k = none := by rw [opAt?, fetch?_of_resolve hp, hnone]; rfl
      simp only [Kinded, hop]
      refine target?_eq_none hp ?_ ?_
      · rintro ⟨i, hi, -⟩; rw [hnone] at hi; cases hi
      · rintro ⟨i, hi, -⟩; rw [hnone] at hi; cases hi
  · rintro ⟨p, hp, hkind⟩
    obtain ⟨hn, -⟩ := entries_of_resolve hp
    have hs : Stretch code 0 code.length :=
      ⟨Nat.zero_le _, Nat.le_refl _, by rw [depth_length hp hkind, depth_zero], fun m _ hm => by
        rw [depth_zero]; exact depth_nonneg hn hm⟩
    obtain ⟨b, hb⟩ := exists_block hp hkind hknown _ (Nat.le_refl _) hs
    exact ⟨b, by rw [hb, List.take_length, List.drop_zero]⟩

theorem kinded_countdown : (∀ i ∈ Block.countdown.flatten, i.op ∈ Op.known) ∧
    ∃ p, resolve Block.countdown.flatten = .ok p ∧ ∀ k, p.Kinded k := by
  have hknown : ∀ i ∈ Block.countdown.flatten, i.op ∈ Op.known := by decide
  obtain ⟨hiff, -⟩ := flatten_iff_kinded Block.countdown.flatten hknown
  exact ⟨hknown, hiff.mp ⟨Block.countdown, rfl⟩⟩

end Program

end WordStack
