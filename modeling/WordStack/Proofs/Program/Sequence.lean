import WordStack.Proofs.Program.Depth

/-!
# Code behind other code

Code that closes all that it opens leaves nothing behind in the pass but its table. So the pass over
code that follows does what it does by itself, with every position moved on.

* `Resolver.behind front r`: the pass at `r`, with a table in front. One instruction keeps it
  (`step_behind`), so the whole pass does (`foldlM_behind`).
* `Program.resolve_append`: code behind closed code resolves or fails as it does by itself.
-/
namespace WordStack

/-- A position, told of code with `d` more instructions in front. -/
def shifted (d : Nat) (k : Int) : Int := d + k

theorem shifted_natCast (d k : Nat) : shifted d k = ((d + k : Nat) : Int) := by simp [shifted]

namespace Resolver

/-- The state of the pass with a table in front of its own. -/
def behind (front : Array (Option Int)) (r : Resolver) : Resolver where
  targets := front ++ r.targets.map (Option.map (shifted front.size))
  opened := r.opened.map (front.size + ·)

variable {front : Array (Option Int)} {r : Resolver} {i : Instruction}

theorem size_behind (front : Array (Option Int)) (r : Resolver) :
    (r.behind front).targets.size = front.size + r.targets.size := by simp [behind]

/-- A word that is open in the code behind gets its target. -/
theorem targets_set (front : Array (Option Int)) (r : Resolver) (o t : Nat) :
    (r.behind front).targets.setIfInBounds (front.size + o) (some ((front.size + t : Nat) : Int)) =
      front ++ (r.targets.setIfInBounds o (some (t : Int))).map
        (Option.map (shifted front.size)) := by
  simp [behind, shifted_natCast]

/-- One instruction is passed over with and without the table in front, or ends both passes. -/
theorem step_behind (front : Array (Option Int)) (r : Resolver) (i : Instruction) :
    (∃ r', r.step i = .ok r' ∧ (r.behind front).step i = .ok (r'.behind front)) ∨
    ∃ op k, r.step i = .error (.unmatched op k) ∧
      (r.behind front).step i = .error (.unmatched op (front.size + k)) := by
  have hsize := size_behind front r
  have hopened : (r.behind front).opened = r.opened.map (front.size + ·) := rfl
  by_cases hend : i.op = .endMark
  · cases hr : r.opened with
    | nil =>
      rw [hr, List.map_nil] at hopened
      exact .inr ⟨.endMark, r.targets.size, by simp only [step, hend, hr],
        by simp only [step, hend, hopened, hsize]⟩
    | cons o rest =>
      rw [hr, List.map_cons] at hopened
      refine .inl ⟨_, by simp only [step, hend, hr]; rfl, ?_⟩
      simp only [step, hend, hopened, hsize, targets_set]
      simp [behind]
  · by_cases hwend : i.op = .wend
    · rcases hr : r.opened with _ | ⟨o, _ | ⟨outer, rest⟩⟩
      · rw [hr, List.map_nil] at hopened
        exact .inr ⟨.wend, r.targets.size, by simp only [step, hwend, hr],
          by simp only [step, hwend, hopened, hsize]⟩
      · rw [hr, List.map_cons, List.map_nil] at hopened
        exact .inr ⟨.wend, r.targets.size, by simp only [step, hwend, hr],
          by simp only [step, hwend, hopened, hsize]⟩
      · rw [hr, List.map_cons, List.map_cons] at hopened
        refine .inl ⟨_, by simp only [step, hwend, hr]; rfl, ?_⟩
        simp only [step, hwend, hopened, hsize, targets_set]
        simp [behind, shifted_natCast]
    · refine .inl ⟨_, r.step_other hend hwend, ?_⟩
      rw [step_other _ hend hwend, hsize, hopened]
      simp only [behind]
      split <;> simp

/-- The whole pass. -/
theorem foldlM_behind (front : Array (Option Int)) (code : List Instruction) (r : Resolver) :
    (∃ r', code.foldlM step r = .ok r' ∧
      code.foldlM step (r.behind front) = .ok (r'.behind front)) ∨
    ∃ op k, code.foldlM step r = .error (.unmatched op k) ∧
      code.foldlM step (r.behind front) = .error (.unmatched op (front.size + k)) := by
  induction code generalizing r with
  | nil => exact .inl ⟨r, rfl, rfl⟩
  | cons i code ih =>
    rw [List.foldlM_cons, List.foldlM_cons]
    rcases step_behind front r i with ⟨r', hr', hb⟩ | ⟨op, k, hr', hb⟩
    · rw [hr', hb]
      exact ih r'
    · rw [hr', hb]
      exact .inr ⟨op, k, rfl, rfl⟩

end Resolver

namespace Program

/-- The pass over closed code leaves no word open. -/
theorem foldlM_of_closed {front : List Instruction} {p : Program} (hp : resolve front = .ok p)
    (hclosed : depth front front.length = 0) :
    front.foldlM Resolver.step {} = .ok (Resolver.behind p.targets {}) ∧
      p.targets.size = front.length := by
  obtain ⟨hn, he⟩ := entries_of_resolve hp
  obtain ⟨r, hr, hm⟩ := matches_take (Nat.le_refl front.length) fun j _ => hn j
  rw [List.take_length] at hr
  have hopened : r.opened = [] := by
    have := hm.levels.length
    rw [hclosed] at this
    exact List.eq_nil_of_length_eq_zero (by omega)
  have htargets : p.targets = r.targets := by
    rw [resolve, hr] at hp
    cases hp; rfl
  refine ⟨?_, he.size⟩
  rw [hr, htargets]
  obtain ⟨targets, opened⟩ := r
  obtain rfl : opened = [] := hopened
  simp [Resolver.behind]

/-- Code behind closed code resolves, with the targets moved on behind those in front, or fails, as
it does by itself. -/
theorem resolve_append {front : List Instruction} {p : Program} (hp : resolve front = .ok p)
    (hclosed : depth front front.length = 0) (code : List Instruction) :
    (∃ q, resolve code = .ok q ∧ resolve (front ++ code) = .ok
      { code := (front ++ code).toArray,
        targets := p.targets ++ q.targets.map (Option.map (shifted front.length)) }) ∨
    ∃ op k, resolve code = .error (.unmatched op k) ∧
      resolve (front ++ code) = .error (.unmatched op (front.length + k)) := by
  obtain ⟨hfront, hsize⟩ := foldlM_of_closed hp hclosed
  have hpass : (front ++ code).foldlM Resolver.step {} =
      code.foldlM Resolver.step (Resolver.behind p.targets {}) := by
    rw [List.foldlM_append, hfront]; rfl
  rw [resolve, resolve, hpass, ← hsize]
  rcases Resolver.foldlM_behind p.targets code {} with ⟨r, hr, hb⟩ | ⟨op, k, hr, hb⟩
  · rw [hr, hb]
    exact .inl ⟨_, rfl, rfl⟩
  · rw [hr, hb]
    exact .inr ⟨op, k, rfl, rfl⟩

end Program

end WordStack
