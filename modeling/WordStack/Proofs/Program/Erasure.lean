import WordStack.Proofs.Program.Depth

/-!
# Code without its words

A word that has no meaning yet does nothing, so it can be left out. The instructions that stay move
up: the one at `k` comes to stand at `kept code k`, the number of instructions in front of it that
stay.

* `kept_succ_of_keeps`, `KeepsAt.kept_lt`, `getElem?_withoutWords`: where the instructions come to
  stand.
* `Resolver.Erased code k r r'`: how the passes over both codes stand after the first `k`
  instructions of the one. One instruction keeps it (`erased_step`, `erased_word`), so the whole
  pass does (`erased_take`).
* `Program.resolve_withoutWords`: both resolve or fail alike, and `Program.target?_withoutWords`:
  the targets correspond.
-/
namespace WordStack

/-- The instructions but for the words with no meaning. -/
def withoutWords (code : List Instruction) : List Instruction := code.filter (·.op ≠ .word)

/-- How many of the first `k` instructions stay. -/
def kept (code : List Instruction) (k : Nat) : Nat := (withoutWords (code.take k)).length

/-- Where a position of the code is in the code without the words. -/
def keptPosition (code : List Instruction) (k : Int) : Int := kept code k.toNat

/-- The instruction at `k` stays. -/
def KeepsAt (code : List Instruction) (k : Nat) : Prop :=
  ∃ i, code[k]? = some i ∧ i.op ≠ .word

section
variable {code : List Instruction} {k : Nat} {i : Instruction}

@[simp] theorem keptPosition_natCast (code : List Instruction) (k : Nat) :
    keptPosition code k = kept code k := by simp [keptPosition]

theorem kept_zero : kept code 0 = 0 := by simp [kept, withoutWords]

theorem withoutWords_take_succ (hi : code[k]? = some i) : withoutWords (code.take (k + 1)) =
    withoutWords (code.take k) ++ withoutWords [i] := by
  rw [List.take_add_one, hi, Option.toList_some, withoutWords, withoutWords, withoutWords,
    List.filter_append]

theorem kept_succ_of_keeps (hi : code[k]? = some i) (hop : i.op ≠ .word) :
    kept code (k + 1) = kept code k + 1 := by
  rw [kept, withoutWords_take_succ hi]
  simp [kept, withoutWords, hop]

theorem kept_succ_of_word (hi : code[k]? = some i) (hop : i.op = .word) :
    kept code (k + 1) = kept code k := by
  rw [kept, withoutWords_take_succ hi]
  simp [kept, withoutWords, hop]

theorem kept_length (code : List Instruction) :
    kept code code.length = (withoutWords code).length := by rw [kept, List.take_length]

/-- The first instructions that stay are those among the first instructions. -/
theorem withoutWords_eq_append (code : List Instruction) (k : Nat) :
    withoutWords code = withoutWords (code.take k) ++ withoutWords (code.drop k) := by
  rw [withoutWords, withoutWords, withoutWords, ← List.filter_append, List.take_append_drop]

/-- An instruction that stays is found where `kept` says. -/
theorem getElem?_withoutWords (hi : code[k]? = some i) (hop : i.op ≠ .word) :
    (withoutWords code)[kept code k]? = some i := by
  rw [withoutWords_eq_append code (k + 1), withoutWords_take_succ hi, List.append_assoc, kept,
    List.getElem?_append_right (Nat.le_refl _), Nat.sub_self]
  simp [withoutWords, hop]

theorem kept_le_kept {j : Nat} (h : j ≤ k) : kept code j ≤ kept code k := by
  have hsub := (List.take_sublist j (code.take k)).filter (·.op ≠ .word)
  rw [List.take_take, Nat.min_eq_left h] at hsub
  exact hsub.length_le

theorem KeepsAt.lt (h : KeepsAt code k) : k < code.length := by
  obtain ⟨i, hi, -⟩ := h
  exact (List.getElem?_eq_some_iff.mp hi).1

theorem KeepsAt.kept_lt {j : Nat} (h : KeepsAt code k) (hj : k < j) :
    kept code k < kept code j := by
  obtain ⟨i, hi, hop⟩ := h
  have hle : kept code (k + 1) ≤ kept code j := kept_le_kept hj
  rw [kept_succ_of_keeps hi hop] at hle
  exact hle

theorem KeepsAt.kept_inj {j : Nat} (hk : KeepsAt code k) (hj : KeepsAt code j)
    (h : kept code k = kept code j) : k = j := by
  rcases Nat.lt_trichotomy k j with hlt | heq | hgt
  · have := hk.kept_lt hlt; omega
  · exact heq
  · have := hj.kept_lt hgt; omega

/-! ## The tables of both passes -/

/-- After `k` instructions of the code, `b` holds the entries of `a` for the instructions that stay,
with the targets moved. -/
structure TableErased (code : List Instruction) (k : Nat) (a b : Array (Option Int)) : Prop where
  size : a.size = k
  size' : b.size = kept code k
  entries : ∀ j, j < k → KeepsAt code j →
    b[kept code j]? = a[j]?.map (Option.map (keptPosition code))
  points : ∀ (j : Nat) (t : Int), a[j]? = some (some t) → ∃ n : Nat, t = n ∧ KeepsAt code n

variable {a b : Array (Option Int)}

/-- The entry of a word is left out. -/
theorem TableErased.word (h : TableErased code k a b) (hi : code[k]? = some i)
    (hop : i.op = .word) : TableErased code (k + 1) (a.push none) b := by
  refine ⟨by simp [h.size], by rw [h.size', kept_succ_of_word hi hop], ?_, ?_⟩
  · intro j hj hkeeps
    have hjk : j ≠ k := by
      rintro rfl
      obtain ⟨i', hi', hop'⟩ := hkeeps
      rw [hi] at hi'; cases hi'
      exact hop' hop
    rw [h.entries j (by omega) hkeeps, Array.getElem?_push, h.size, if_neg hjk]
  · intro j t ht
    rw [Array.getElem?_push] at ht
    split at ht
    · cases ht
    · exact h.points j t ht

/-- A further entry. -/
theorem TableErased.push (h : TableErased code k a b) (hi : code[k]? = some i)
    (hop : i.op ≠ .word) {w : Option Int}
    (hw : ∀ t, w = some t → ∃ n : Nat, t = n ∧ KeepsAt code n) :
    TableErased code (k + 1) (a.push w) (b.push (w.map (keptPosition code))) := by
  have hk : KeepsAt code k := ⟨i, hi, hop⟩
  refine ⟨by simp [h.size], by simp [h.size', kept_succ_of_keeps hi hop], ?_, ?_⟩
  · intro j hj hkeeps
    rw [Array.getElem?_push, Array.getElem?_push, h.size, h.size']
    by_cases hjk : j = k
    · subst hjk; simp
    · have hne : kept code j ≠ kept code k := fun he => hjk (hkeeps.kept_inj hk he)
      rw [if_neg hne, if_neg hjk, h.entries j (by omega) hkeeps]
  · intro j t ht
    rw [Array.getElem?_push] at ht
    split at ht
    · exact hw t (Option.some.inj ht)
    · exact h.points j t ht

/-- A word that was open gets its target. -/
theorem TableErased.set {o t : Nat} (h : TableErased code k a b) (ho : KeepsAt code o) (hok : o < k)
    (ht : KeepsAt code t) : TableErased code k (a.setIfInBounds o (some (t : Int)))
      (b.setIfInBounds (kept code o) (some (kept code t : Int))) := by
  refine ⟨by simp [h.size], by simp [h.size'], ?_, ?_⟩
  · intro j hj hkeeps
    have hsize : o < a.size := by rw [h.size]; exact hok
    have hsize' : kept code o < b.size := by rw [h.size']; exact ho.kept_lt hok
    rw [Array.getElem?_setIfInBounds, Array.getElem?_setIfInBounds]
    by_cases hoj : o = j
    · subst hoj; simp [hsize, hsize']
    · have hne : kept code o ≠ kept code j := fun he => hoj (ho.kept_inj hkeeps he)
      rw [if_neg hne, if_neg hoj, h.entries j hj hkeeps]
  · intro j n hn
    rw [Array.getElem?_setIfInBounds] at hn
    split at hn
    · split at hn
      · exact ⟨t, by simpa using hn.symm, ht⟩
      · cases hn
    · exact h.points j n hn

/-! ## Both passes -/

/-- After `k` instructions of the code the pass over it stands at `r`, and the pass over what stays
of them at `r'`. -/
structure Resolver.Erased (code : List Instruction) (k : Nat) (r r' : Resolver) : Prop where
  table : TableErased code k r.targets r'.targets
  opened : r'.opened = r.opened.map (kept code)
  keeps : ∀ o ∈ r.opened, o < k ∧ KeepsAt code o

variable {r r' : Resolver}

namespace Resolver

theorem erased_zero (code : List Instruction) : Erased code 0 {} {} :=
  ⟨⟨rfl, kept_zero.symm, fun _ hj => absurd hj (Nat.not_lt_zero _), fun _ _ ht => by simp at ht⟩,
    rfl, fun _ ho => nomatch ho⟩

/-- A word leaves the pass over what stays where it is. -/
theorem erased_word (h : Erased code k r r') (hi : code[k]? = some i) (hop : i.op = .word) :
    ∃ r₁, r.step i = .ok r₁ ∧ Erased code (k + 1) r₁ r' := by
  refine ⟨_, r.step_other (by simp [hop]) (by simp [hop]), h.table.word hi hop, ?_, ?_⟩
  · simpa [hop, Op.isOpener] using h.opened
  · intro o ho
    obtain ⟨hlt, hkeeps⟩ := h.keeps o (by simpa [hop, Op.isOpener] using ho)
    exact ⟨by omega, hkeeps⟩

/-- Any other instruction is passed over in both codes, or ends both passes. -/
theorem erased_step (h : Erased code k r r') (hi : code[k]? = some i) (hop : i.op ≠ .word) :
    (∃ r₁ r₁', r.step i = .ok r₁ ∧ r'.step i = .ok r₁' ∧ Erased code (k + 1) r₁ r₁') ∨
    r.step i = .error (.unmatched i.op k) ∧ r'.step i = .error (.unmatched i.op (kept code k)) := by
  have hk : KeepsAt code k := ⟨i, hi, hop⟩
  have hsize := h.table.size
  have hsize' := h.table.size'
  have hlater : ∀ o ∈ r.opened, o < k + 1 ∧ KeepsAt code o := fun o ho =>
    ⟨by have := (h.keeps o ho).1; omega, (h.keeps o ho).2⟩
  have hopened := h.opened
  by_cases hend : i.op = .endMark
  · cases hr : r.opened with
    | nil =>
      rw [hr, List.map_nil] at hopened
      exact .inr ⟨by simp only [step, hend, hr, hsize], by simp only [step, hend, hopened, hsize']⟩
    | cons o rest =>
      rw [hr, List.map_cons] at hopened
      obtain ⟨hlt, hkeeps⟩ := h.keeps o (by simp [hr])
      refine .inl ⟨_, _, by simp only [step, hend, hr]; rfl, by simp only [step, hend, hopened]; rfl,
        ?_, rfl, fun o' ho' => hlater o' (by simp [hr, ho'])⟩
      rw [hsize, hsize']
      exact (h.table.set hkeeps hlt hk).push hi hop (fun t ht => by cases ht)
  · by_cases hwend : i.op = .wend
    · rcases hr : r.opened with _ | ⟨o, _ | ⟨outer, rest⟩⟩
      · rw [hr, List.map_nil] at hopened
        exact .inr ⟨by simp only [step, hwend, hr, hsize],
          by simp only [step, hwend, hopened, hsize']⟩
      · rw [hr, List.map_cons, List.map_nil] at hopened
        exact .inr ⟨by simp only [step, hwend, hr, hsize],
          by simp only [step, hwend, hopened, hsize']⟩
      · rw [hr, List.map_cons, List.map_cons] at hopened
        obtain ⟨hlt, hkeeps⟩ := h.keeps o (by simp [hr])
        obtain ⟨-, houter⟩ := h.keeps outer (by simp [hr])
        refine .inl ⟨_, _, by simp only [step, hwend, hr]; rfl,
          by simp only [step, hwend, hopened]; rfl, ?_, rfl,
          fun o' ho' => hlater o' (by simp [hr, ho'])⟩
        have hback : some ((kept code outer : Nat) : Int) =
            (some (outer : Int)).map (keptPosition code) := by simp
        rw [hsize, hsize', hback]
        refine (h.table.set hkeeps hlt hk).push hi hop ?_
        intro t ht
        exact ⟨outer, (Option.some.inj ht).symm, houter⟩
    · refine .inl ⟨_, _, r.step_other hend hwend, r'.step_other hend hwend, ?_, ?_, ?_⟩
      · exact h.table.push hi hop (fun t ht => by cases ht)
      · simp only [hsize, hsize', hopened]
        split <;> simp
      · intro o ho
        simp only [hsize] at ho
        split at ho
        · rcases List.mem_cons.mp ho with rfl | ho
          · exact ⟨Nat.lt_succ_self _, hk⟩
          · exact hlater o ho
        · exact hlater o ho

/-- After any number of instructions both passes go on, or both have failed. -/
theorem erased_take (hk : k ≤ code.length) :
    (∃ r r', (code.take k).foldlM step {} = .ok r ∧
      (withoutWords (code.take k)).foldlM step {} = .ok r' ∧ Erased code k r r') ∨
    ∃ op j, (code.take k).foldlM step {} = .error (.unmatched op j) ∧
      (withoutWords (code.take k)).foldlM step {} = .error (.unmatched op (kept code j)) := by
  induction k with
  | zero => exact .inl ⟨{}, {}, rfl, rfl, erased_zero code⟩
  | succ k ih =>
    have hi : code[k]? = some (code.get ⟨k, hk⟩) := by simp
    generalize code.get ⟨k, hk⟩ = i at hi
    rw [foldlM_take_succ hi, withoutWords_take_succ hi, List.foldlM_append]
    rcases ih (by omega) with ⟨r, r', hr, hr', he⟩ | ⟨op, j, hr, hr'⟩
    · rw [hr, hr']
      by_cases hop : i.op = .word
      · obtain ⟨r₁, hstep, he₁⟩ := erased_word he hi hop
        have hnone : withoutWords [i] = [] := by simp [withoutWords, hop]
        rw [hnone]
        exact .inl ⟨r₁, r', hstep, rfl, he₁⟩
      · have hone : withoutWords [i] = [i] := by simp [withoutWords, hop]
        have hlast : [i].foldlM step r' = r'.step i := by simp
        rw [hone]
        rcases erased_step he hi hop with ⟨r₁, r₁', hstep, hstep', he₁⟩ | ⟨hstep, hstep'⟩
        · exact .inl ⟨r₁, r₁', hstep, hlast.trans hstep', he₁⟩
        · exact .inr ⟨i.op, k, hstep, hlast.trans hstep'⟩
    · rw [hr, hr']
      exact .inr ⟨op, j, rfl, rfl⟩

end Resolver

namespace Program

/-- Both codes resolve, and the targets of the instructions that stay correspond, or both fail at
the same instruction. -/
theorem resolve_withoutWords (code : List Instruction) :
    (∃ p q, resolve code = .ok p ∧ resolve (withoutWords code) = .ok q ∧
      TableErased code code.length p.targets q.targets) ∨
    ∃ op k, resolve code = .error (.unmatched op k) ∧
      resolve (withoutWords code) = .error (.unmatched op (kept code k)) := by
  have h := Resolver.erased_take (Nat.le_refl code.length)
  rw [List.take_length] at h
  unfold resolve
  rcases h with ⟨r, r', hr, hr', he⟩ | ⟨op, k, hr, hr'⟩
  · rw [hr, hr']
    exact .inl ⟨_, _, rfl, rfl, he.table⟩
  · rw [hr, hr']
    exact .inr ⟨op, k, rfl, rfl⟩

variable {p q : Program}

theorem tableErased_of_resolve (hp : resolve code = .ok p)
    (hq : resolve (withoutWords code) = .ok q) :
    TableErased code code.length p.targets q.targets := by
  rcases resolve_withoutWords code with ⟨p', q', hp', hq', ht⟩ | ⟨op, k, hfail, -⟩
  · rw [hp] at hp'; cases hp'
    rw [hq] at hq'; cases hq'
    exact ht
  · rw [hp] at hfail; cases hfail

section
variable (h : TableErased code code.length p.targets q.targets)

include h

/-- The targets are instructions that stay. -/
theorem exists_keepsAt_of_target {t : Int} (ht : p.target? k = some t) :
    ∃ n : Nat, t = n ∧ KeepsAt code n := by
  rw [target?_natCast] at ht
  cases hentry : p.targets[k]? with
  | none => rw [hentry] at ht; cases ht
  | some entry =>
    rw [hentry, Option.join_some] at ht
    exact h.points k t (by rw [hentry, ht])

variable (hk : KeepsAt code k)

include hk

theorem target?_withoutWords :
    q.target? (kept code k) = (p.target? k).map (keptPosition code) := by
  rw [target?_natCast, target?_natCast, h.entries k hk.lt hk]
  cases p.targets[k]? <;> rfl

/-- The target of an instruction is `t` if and only if the target of the moved one is where `t` is
moved to. -/
theorem target?_eq_iff_withoutWords {t : Nat} (ht : KeepsAt code t) :
    p.target? k = some (t : Int) ↔ q.target? (kept code k) = some (kept code t : Int) := by
  rw [target?_withoutWords h hk]
  constructor
  · intro htarget
    rw [htarget]; simp
  · intro htarget
    obtain ⟨n, hn, heq⟩ := Option.map_eq_some_iff.mp htarget
    obtain ⟨j, rfl, hj⟩ := exists_keepsAt_of_target h hn
    rw [keptPosition_natCast] at heq
    rw [hn, hj.kept_inj ht (by exact_mod_cast heq)]

end

end Program

end

end WordStack
