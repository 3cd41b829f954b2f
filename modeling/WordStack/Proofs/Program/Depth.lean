import Mathlib.Data.Nat.Find
import WordStack.Program

/-!
# Depth: which block words meet

Resolving keeps the open block words on a stack. The same matching can be read off the *depth*
alone: the number of open block words behind the first `k` instructions, to which an opener adds
one, from which `end` takes one and `wend` two (`depth`).

* `Overdraws code k`: the closing word at `k` finds less depth than it takes.
* `Closes code i j`: behind `i`, the depth is back at or below the one in front of `i` for the
  first time behind `j`.
* `Resolver.Matches code k r`: what the pass knows after `k` instructions. The open words stand on
  the stack one level apart, and every entry of the table is the one that `Closes` gives.

One instruction keeps `Matches` (`matches_step`), so the whole pass does (`matches_take`), and it
fails exactly at the first overdraw (`resolve_eq_error`).
-/
namespace WordStack

/-- What an operation adds to the depth. -/
def Op.weight : Op → Int
  | .ifTest | .whileMark | .doTest => 1
  | .endMark => -1
  | .wend => -2
  | _ => 0

/-- A known operation that is no block word. -/
def Op.isPlain : Op → Bool
  | .ifTest | .whileMark | .doTest | .endMark | .wend | .unknown _ => false
  | _ => true

theorem Op.weight_of_isPlain {op : Op} (h : op.isPlain = true) : op.weight = 0 := by
  cases op <;> simp_all [isPlain, weight]

theorem Op.weight_of_isOpener {op : Op} (h : op.isOpener = true) : op.weight = 1 := by
  cases op <;> simp_all [isOpener, weight]

theorem Op.weight_of_plain {op : Op} (h : op.isOpener = false) (he : op ≠ .endMark)
    (hw : op ≠ .wend) : op.weight = 0 := by
  cases op <;> simp_all [isOpener, weight]

theorem Op.weight_le_of_not_isOpener {op : Op} (h : op.isOpener = false) : op.weight ≤ 0 := by
  cases op <;> simp_all [isOpener, weight]

/-- The depth behind the first `k` instructions. -/
def depth : (code : List Instruction) → (k : Nat) → Int
  | _, 0 => 0
  | [], _ + 1 => 0
  | i :: code, k + 1 => i.op.weight + depth code k

/-- The instruction at `k` opens a block. -/
def OpensAt (code : List Instruction) (k : Nat) : Prop :=
  ∃ i, code[k]? = some i ∧ i.op.isOpener = true

/-- The instruction at `k` has the operation `op`. -/
def HasOp (code : List Instruction) (k : Nat) (op : Op) : Prop :=
  ∃ i, code[k]? = some i ∧ i.op = op

/-- The closing word at `k` finds too few open words. -/
def Overdraws (code : List Instruction) (k : Nat) : Prop :=
  HasOp code k .endMark ∧ depth code k < 1 ∨ HasOp code k .wend ∧ depth code k < 2

/-- `j` is the first place behind `i` whose instruction brings the depth back to what it was in
front of `i`, or lower. -/
structure Closes (code : List Instruction) (i j : Nat) : Prop where
  lt : i < j
  inside : j < code.length
  low : depth code (j + 1) ≤ depth code i
  first : ∀ k, i < k → k < j → depth code i < depth code (k + 1)

section
variable {code : List Instruction}

/-! ## Depth -/

theorem depth_zero : depth code 0 = 0 := by cases code <;> rfl

theorem depth_nil (k : Nat) : depth [] k = 0 := by cases k <;> rfl

theorem depth_cons (i : Instruction) (code : List Instruction) (k : Nat) :
    depth (i :: code) (k + 1) = i.op.weight + depth code k := rfl

theorem depth_succ {k : Nat} {i : Instruction} (h : code[k]? = some i) :
    depth code (k + 1) = depth code k + i.op.weight := by
  induction code generalizing k with
  | nil => cases h
  | cons i' code ih =>
    cases k with
    | zero =>
      cases h
      rw [depth_cons, depth_zero, depth_zero]; omega
    | succ k =>
      rw [depth_cons, depth_cons, ih h]; omega

theorem depth_of_length_le {k : Nat} (h : code.length ≤ k) :
    depth code k = depth code code.length := by
  induction code generalizing k with
  | nil => rw [depth_nil, depth_nil]
  | cons i code ih =>
    obtain ⟨k, rfl⟩ : ∃ n, k = n + 1 := ⟨k - 1, by rw [List.length_cons] at h; omega⟩
    rw [List.length_cons, depth_cons, depth_cons, ih (by rw [List.length_cons] at h; omega)]

theorem depth_succ_of_opens {k : Nat} (h : OpensAt code k) :
    depth code (k + 1) = depth code k + 1 := by
  obtain ⟨i, hi, ho⟩ := h
  rw [depth_succ hi, Op.weight_of_isOpener ho]

theorem depth_succ_of_end {k : Nat} (h : HasOp code k .endMark) :
    depth code (k + 1) = depth code k - 1 := by
  obtain ⟨i, hi, ho⟩ := h
  rw [depth_succ hi, ho]; rfl

theorem depth_succ_of_wend {k : Nat} (h : HasOp code k .wend) :
    depth code (k + 1) = depth code k - 2 := by
  obtain ⟨i, hi, ho⟩ := h
  rw [depth_succ hi, ho]; rfl

theorem OpensAt.lt {k : Nat} (h : OpensAt code k) : k < code.length := by
  obtain ⟨i, hi, -⟩ := h
  exact (List.getElem?_eq_some_iff.mp hi).1

theorem HasOp.lt {k : Nat} {op : Op} (h : HasOp code k op) : k < code.length := by
  obtain ⟨i, hi, -⟩ := h
  exact (List.getElem?_eq_some_iff.mp hi).1

theorem HasOp.unique {k : Nat} {op op' : Op} (h : HasOp code k op) (h' : HasOp code k op') :
    op = op' := by
  obtain ⟨i, hi, rfl⟩ := h
  obtain ⟨i', hi', rfl⟩ := h'
  rw [hi] at hi'; cases hi'; rfl

theorem OpensAt.not_hasOp {k : Nat} {op : Op} (h : OpensAt code k) (hop : op.isOpener = false) :
    ¬ HasOp code k op := by
  rintro ⟨i, hi, rfl⟩
  obtain ⟨i', hi', ho⟩ := h
  rw [hi] at hi'; cases hi'
  rw [hop] at ho; cases ho

/-- Behind an opener the depth stays above the one in front of it until the opener is closed. -/
theorem depth_lt_of_open {i k : Nat} (ho : OpensAt code i) (hik : i < k)
    (h : ∀ j, i < j → j < k → depth code i < depth code (j + 1)) : depth code i < depth code k := by
  obtain ⟨k, rfl⟩ : ∃ n, k = n + 1 := ⟨k - 1, by omega⟩
  by_cases hk : k = i
  · subst hk; rw [depth_succ_of_opens ho]; omega
  · exact h k (by omega) (by omega)

/-- Where the depth rises above a level for good, an opener stands at that level. -/
theorem exists_rise {lo hi : Nat} {v : Int} (hlo : depth code lo ≤ v) (hhi : v < depth code hi)
    (hle : lo ≤ hi) : ∃ d, lo ≤ d ∧ d < hi ∧ OpensAt code d ∧ depth code d = v ∧
      ∀ m, d < m → m ≤ hi → v < depth code m := by
  induction hi with
  | zero => rw [Nat.le_zero.mp hle] at hlo; omega
  | succ hi ih =>
    have hne : lo ≠ hi + 1 := by rintro rfl; omega
    by_cases hv : v < depth code hi
    · obtain ⟨d, h1, h2, h3, h4, h5⟩ := ih hv (by omega)
      refine ⟨d, h1, by omega, h3, h4, ?_⟩
      intro m hdm hm
      by_cases hmh : m = hi + 1
      · rw [hmh]; exact hhi
      · exact h5 m hdm (by omega)
    · -- the last step crosses the level, so it is the opener
      cases hi' : code[hi]? with
      | none =>
        have hlen : code.length ≤ hi := List.getElem?_eq_none_iff.mp hi'
        have hsame := depth_of_length_le hlen
        have hnext : depth code (hi + 1) = _ := depth_of_length_le (by omega)
        omega
      | some i =>
        have hw := depth_succ hi'
        cases ho : i.op.isOpener with
        | true =>
          rw [Op.weight_of_isOpener ho] at hw
          refine ⟨hi, by omega, by omega, ⟨i, hi', ho⟩, by omega, ?_⟩
          intro m hdm hm
          rw [show m = hi + 1 by omega]; exact hhi
        | false =>
          have := Op.weight_le_of_not_isOpener ho
          omega

theorem Closes.unique {i j j' : Nat} (h : Closes code i j) (h' : Closes code i j') : j = j' := by
  rcases Nat.lt_trichotomy j j' with hlt | heq | hgt
  · have := h'.first j h.lt hlt; have := h.low; omega
  · exact heq
  · have := h.first j' h'.lt hgt; have := h'.low; omega

/-! ## What the pass knows -/

/-- After `k` instructions the open words are those not closed so far, one level apart, with the
innermost first. -/
structure Levels (code : List Instruction) (k : Nat) (opened : List Nat) : Prop where
  length : (opened.length : Int) = depth code k
  level : ∀ n i : Nat, opened[n]? = some i → depth code i + n + 1 = depth code k
  mem : ∀ i, i ∈ opened ↔
    i < k ∧ OpensAt code i ∧ ∀ j, i < j → j < k → depth code i < depth code (j + 1)

/-- After `k` instructions the entries are the ones that the depth gives: an opener points to the
word that closes it, unless that is a `wend` which leaves the depth where it was in front of the
opener; such a `wend` points back. All else is blank. -/
structure Entries (code : List Instruction) (k : Nat) (targets : Array (Option Int)) : Prop where
  size : targets.size = k
  blank : ∀ i, i < k → ¬ HasOp code i .wend → (OpensAt code i → ∀ j, j < k → ¬ Closes code i j) →
    targets[i]? = some none
  outer : ∀ i j, OpensAt code i → Closes code i j → j < k → HasOp code j .wend →
    depth code (j + 1) = depth code i →
    targets[i]? = some none ∧ targets[j]? = some (some (i : Int))
  inner : ∀ i j, OpensAt code i → Closes code i j → j < k →
    ¬ (HasOp code j .wend ∧ depth code (j + 1) = depth code i) →
    targets[i]? = some (some (j : Int))
  wend : ∀ j, j < k → HasOp code j .wend →
    ∃ i, OpensAt code i ∧ Closes code i j ∧ depth code (j + 1) = depth code i

theorem levels_zero : Levels code 0 [] where
  length := by simp [depth_zero]
  level := by simp
  mem := by simp

theorem entries_zero : Entries code 0 #[] where
  size := rfl
  blank := by omega
  outer := by omega
  inner := by omega
  wend := by omega

variable {k : Nat} {opened : List Nat} {targets : Array (Option Int)}

/-- What stands on the stack is not closed yet. -/
theorem Levels.le_of_closes (h : Levels code k opened) {i j : Nat} (hi : i ∈ opened)
    (hc : Closes code i j) : k ≤ j := by
  obtain ⟨-, -, hopen⟩ := (h.mem i).mp hi
  rcases Nat.lt_or_ge j k with hj | hj
  · have := hopen j hc.lt hj; have := hc.low; omega
  · exact hj

/-- `k` closes those words on the stack down to whose level it reaches. -/
theorem Levels.closes_iff (h : Levels code k opened) (hk : k < code.length) {i : Nat}
    (ho : OpensAt code i) : Closes code i k ↔
      ∃ n : Nat, opened[n]? = some i ∧ depth code (k + 1) + n < depth code k := by
  constructor
  · intro hc
    obtain ⟨n, hn⟩ := List.mem_iff_getElem?.mp ((h.mem i).mpr ⟨hc.lt, ho, hc.first⟩)
    have := h.level n i hn; have := hc.low
    exact ⟨n, hn, by omega⟩
  · rintro ⟨n, hn, hlow⟩
    obtain ⟨hik, -, hopen⟩ := (h.mem i).mp (List.mem_of_getElem? hn)
    have := h.level n i hn
    exact ⟨hik, hk, by omega, hopen⟩

/-! ## The stack after one instruction -/

theorem Levels.push (h : Levels code k opened) (hk : OpensAt code k) :
    Levels code (k + 1) (k :: opened) := by
  have hd := depth_succ_of_opens hk
  refine ⟨?_, ?_, ?_⟩
  · have := h.length
    simp only [List.length_cons]; omega
  · intro n i hn
    cases n with
    | zero => simp only [List.getElem?_cons_zero, Option.some.injEq] at hn; subst hn; omega
    | succ n =>
      have := h.level n i (by simpa using hn)
      omega
  · intro i
    rw [List.mem_cons, h.mem]
    constructor
    · rintro (rfl | ⟨hi, ho, hopen⟩)
      · exact ⟨by omega, hk, by omega⟩
      · refine ⟨by omega, ho, ?_⟩
        intro j hij hj
        rcases Nat.lt_succ_iff_lt_or_eq.mp hj with hj | rfl
        · exact hopen j hij hj
        · have := depth_lt_of_open ho hi hopen; omega
    · rintro ⟨hi, ho, hopen⟩
      by_cases hik : i = k
      · exact Or.inl hik
      · exact Or.inr ⟨by omega, ho, fun j hij hj => hopen j hij (by omega)⟩

/-- An instruction that is no opener takes as many words off the stack as it takes off the
depth. -/
theorem Levels.drop (h : Levels code k opened) (hk : ¬ OpensAt code k) {d : Nat}
    (hd : depth code (k + 1) = depth code k - d) (hlen : d ≤ opened.length) :
    Levels code (k + 1) (opened.drop d) := by
  refine ⟨?_, ?_, ?_⟩
  · have := h.length
    rw [List.length_drop]; omega
  · intro n i hn
    rw [List.getElem?_drop] at hn
    have := h.level (d + n) i hn
    omega
  · intro i
    constructor
    · intro hi
      obtain ⟨n, hn⟩ := List.mem_iff_getElem?.mp hi
      rw [List.getElem?_drop] at hn
      have := h.level (d + n) i hn
      obtain ⟨hik, ho, hopen⟩ := (h.mem i).mp (List.mem_of_getElem? hn)
      refine ⟨by omega, ho, ?_⟩
      intro j hij hj
      rcases Nat.lt_succ_iff_lt_or_eq.mp hj with hj | rfl
      · exact hopen j hij hj
      · omega
    · rintro ⟨hi, ho, hopen⟩
      have hik : i ≠ k := by rintro rfl; exact hk ho
      obtain ⟨n, hn⟩ := List.mem_iff_getElem?.mp
        ((h.mem i).mpr ⟨by omega, ho, fun j hij hj => hopen j hij (by omega)⟩)
      have := h.level n i hn
      have := hopen k (by omega) (by omega)
      refine List.mem_iff_getElem?.mpr ⟨n - d, ?_⟩
      rw [List.getElem?_drop, show d + (n - d) = n by omega]
      exact hn

/-! ## The table after one instruction -/

/-- An instruction that takes nothing off the depth closes nothing. -/
theorem lt_of_closes {i j : Nat} (hup : depth code k ≤ depth code (k + 1)) (ho : OpensAt code i)
    (hc : Closes code i j) (hj : j < k + 1) : j < k := by
  rcases Nat.lt_succ_iff_lt_or_eq.mp hj with hj | rfl
  · exact hj
  · have := depth_lt_of_open ho hc.lt hc.first
    have := hc.low; omega

theorem Entries.push (h : Entries code k targets) (hk : ¬ HasOp code k .wend)
    (hup : depth code k ≤ depth code (k + 1)) : Entries code (k + 1) (targets.push none) := by
  have hget : ∀ {j}, j < k → (targets.push none)[j]? = targets[j]? := by
    intro j hj
    rw [Array.getElem?_push, h.size, if_neg (by omega)]
  refine ⟨by simp [h.size], ?_, ?_, ?_, ?_⟩
  · intro i hi hw hopen
    by_cases hik : i = k
    · subst hik; simp [← h.size]
    · rw [hget (by omega)]
      exact h.blank i (by omega) hw fun ho j hj => hopen ho j (by omega)
  · intro i j ho hc hj hw heq
    have hj := lt_of_closes hup ho hc hj
    have := hc.lt
    rw [hget hj, hget (by omega)]
    exact h.outer i j ho hc hj hw heq
  · intro i j ho hc hj hn
    have hj := lt_of_closes hup ho hc hj
    have := hc.lt
    rw [hget (by omega)]
    exact h.inner i j ho hc hj hn
  · intro j hj hw
    have hjk : j ≠ k := by rintro rfl; exact hk hw
    exact h.wend j (by omega) hw

theorem getElem?_set_push {α : Type} {a : Array α} {o i : Nat} {v w : α} (ho : o < a.size) :
    ((a.setIfInBounds o v).push w)[i]? =
      if i = a.size then some w else if i = o then some v else a[i]? := by
  rw [Array.getElem?_push, Array.size_setIfInBounds, Array.getElem?_setIfInBounds]
  by_cases h : o = i
  · subst h; simp [ho]
  · simp [h, Ne.symm h]

/-- A closing word at `k`: the innermost open word `o` gets `k`, and `k` itself gets `w`. -/
theorem Entries.close {o : Nat} {rest : List Nat} {w : Option Int} (h : Entries code k targets)
    (hl : Levels code k (o :: rest)) (hk : k < code.length)
    (hw : HasOp code k .endMark ∧ w = none ∨
      HasOp code k .wend ∧ ∃ b : Nat, rest[0]? = some b ∧ w = some (b : Int)) :
    Entries code (k + 1) ((targets.setIfInBounds o (some (k : Int))).push w) := by
  have ho : o ∈ o :: rest := List.mem_cons_self
  obtain ⟨hok, hoo, -⟩ := (hl.mem o).mp ho
  have hlevel := hl.level 0 o rfl
  have hget : ∀ i, ((targets.setIfInBounds o (some (k : Int))).push w)[i]? =
      if i = k then some w else if i = o then some (some (k : Int)) else targets[i]? := by
    intro i
    rw [getElem?_set_push (by rw [h.size]; exact hok), h.size]
  -- the pairs among the first `k` instructions keep their entries, for `o` is in none of them
  have hkeep : ∀ {i j}, Closes code i j → j < k → i ≠ o := by
    rintro i j hc hj rfl
    exact absurd (hl.le_of_closes ho hc) (by omega)
  refine ⟨by simp [h.size], ?_, ?_, ?_, ?_⟩
  · intro i hi hiw hopen
    rw [hget]
    by_cases hik : i = k
    · subst hik
      rcases hw with ⟨-, rfl⟩ | ⟨hw, -⟩
      · rw [if_pos rfl]
      · exact absurd hw hiw
    · have hio : i ≠ o := by
        rintro rfl
        refine hopen hoo k (by omega) ((hl.closes_iff hk hoo).mpr ⟨0, rfl, ?_⟩)
        rcases hw with ⟨he, -⟩ | ⟨hw, -⟩
        · rw [depth_succ_of_end he]; omega
        · rw [depth_succ_of_wend hw]; omega
      rw [if_neg hik, if_neg hio]
      exact h.blank i (by omega) hiw fun ho j hj => hopen ho j (by omega)
  · intro i j hio hc hj hjw heq
    have hij := hc.lt
    rcases Nat.lt_succ_iff_lt_or_eq.mp hj with hj | rfl
    · have hjo : j ≠ o := by rintro rfl; exact hoo.not_hasOp rfl hjw
      rw [hget, hget, if_neg (by omega), if_neg (hkeep hc hj), if_neg (by omega), if_neg hjo]
      exact h.outer i j hio hc hj hjw heq
    · obtain ⟨n, hn, -⟩ := (hl.closes_iff hk hio).mp hc
      have := hl.level n i hn
      have hd := depth_succ_of_wend hjw
      obtain rfl : n = 1 := by omega
      rcases hw with ⟨he, -⟩ | ⟨-, b, hb, rfl⟩
      · exact absurd (he.unique hjw) (by decide)
      · have hib : b = i := by
          rw [List.getElem?_cons_succ] at hn
          rw [hn] at hb; cases hb; rfl
        subst hib
        have hbo : b ≠ o := by rintro rfl; omega
        rw [hget, hget, if_neg (by omega), if_neg hbo, if_pos rfl]
        refine ⟨h.blank b hij (fun hbw => hio.not_hasOp rfl hbw) ?_, rfl⟩
        intro _ j hj hcj
        exact absurd (hcj.unique hc) (by omega)
  · intro i j hio hc hj hn
    have hij := hc.lt
    rw [hget, if_neg (by omega)]
    rcases Nat.lt_succ_iff_lt_or_eq.mp hj with hj | rfl
    · rw [if_neg (hkeep hc hj)]
      exact h.inner i j hio hc hj hn
    · obtain ⟨n, hni, hlow⟩ := (hl.closes_iff hk hio).mp hc
      have := hl.level n i hni
      have hn0 : n = 0 := by
        rcases hw with ⟨he, -⟩ | ⟨hjw, -⟩
        · have := depth_succ_of_end he; omega
        · have := depth_succ_of_wend hjw
          have : depth code (j + 1) ≠ depth code i := fun e => hn ⟨hjw, e⟩
          omega
      subst hn0
      simp only [List.getElem?_cons_zero, Option.some.injEq] at hni
      rw [if_pos hni.symm]
  · intro j hj hjw
    rcases Nat.lt_succ_iff_lt_or_eq.mp hj with hj | rfl
    · exact h.wend j hj hjw
    · rcases hw with ⟨he, -⟩ | ⟨-, b, hb, -⟩
      · exact absurd (he.unique hjw) (by decide)
      · have hb1 : (o :: rest)[1]? = some b := by rw [List.getElem?_cons_succ]; exact hb
        have := hl.level 1 b hb1
        have hd := depth_succ_of_wend hjw
        obtain ⟨-, hbo, -⟩ := (hl.mem b).mp (List.mem_of_getElem? hb1)
        exact ⟨b, hbo, (hl.closes_iff hk hbo).mpr ⟨1, hb1, by omega⟩, by omega⟩

/-! ## The whole pass -/

/-- What the pass knows after `k` instructions. -/
structure Resolver.Matches (code : List Instruction) (k : Nat) (r : Resolver) : Prop where
  levels : Levels code k r.opened
  entries : Entries code k r.targets

theorem Resolver.step_other (r : Resolver) {i : Instruction} (he : i.op ≠ .endMark)
    (hw : i.op ≠ .wend) :
    r.step i = .ok { targets := r.targets.push none,
                     opened := if i.op.isOpener then r.targets.size :: r.opened else r.opened } := by
  unfold step
  split <;> simp_all

/-- The pass goes on unless the instruction overdraws, and then knows as much about one instruction
more. -/
theorem Resolver.matches_step {r : Resolver} {i : Instruction} (h : Matches code k r)
    (hi : code[k]? = some i) (hn : ¬ Overdraws code k) :
    ∃ r', r.step i = .ok r' ∧ Matches code (k + 1) r' := by
  obtain ⟨hl, he⟩ := h
  have hk : k < code.length := (List.getElem?_eq_some_iff.mp hi).1
  have hlen := hl.length
  by_cases hend : i.op = .endMark
  · have hop : HasOp code k .endMark := ⟨i, hi, hend⟩
    have hdeep : ¬ depth code k < 1 := fun hlt => hn (Or.inl ⟨hop, hlt⟩)
    match hopen : r.opened with
    | [] => rw [hopen] at hlen; simp only [List.length_nil] at hlen; omega
    | o :: rest =>
      rw [hopen] at hl
      refine ⟨_, by simp only [step, hend, hopen]; rfl, ?_, ?_⟩
      · exact hl.drop (d := 1) (fun ho => ho.not_hasOp rfl hop) (depth_succ_of_end hop) (by simp)
      · rw [he.size]; exact he.close hl hk (Or.inl ⟨hop, rfl⟩)
  · by_cases hwend : i.op = .wend
    · have hop : HasOp code k .wend := ⟨i, hi, hwend⟩
      have hdeep : ¬ depth code k < 2 := fun hlt => hn (Or.inr ⟨hop, hlt⟩)
      match hopen : r.opened with
      | [] => rw [hopen] at hlen; simp only [List.length_nil] at hlen; omega
      | [_] => rw [hopen] at hlen; simp only [List.length_cons, List.length_nil] at hlen; omega
      | a :: b :: rest =>
        rw [hopen] at hl
        refine ⟨_, by simp only [step, hwend, hopen]; rfl, ?_, ?_⟩
        · exact hl.drop (d := 2) (fun ho => ho.not_hasOp rfl hop) (depth_succ_of_wend hop) (by simp)
        · rw [he.size]; exact he.close hl hk (Or.inr ⟨hop, b, rfl, rfl⟩)
    · have hkw : ¬ HasOp code k .wend := by
        rintro ⟨i', hi', hop⟩
        rw [hi] at hi'; cases hi'; exact hwend hop
      refine ⟨_, r.step_other hend hwend, ?_⟩
      rw [he.size]
      cases ho : i.op.isOpener with
      | true =>
        have hd := depth_succ_of_opens ⟨i, hi, ho⟩
        exact ⟨hl.push ⟨i, hi, ho⟩, he.push hkw (by omega)⟩
      | false =>
        have hd : depth code (k + 1) = depth code k - (0 : Nat) := by
          rw [depth_succ hi, Op.weight_of_plain ho hend hwend]; simp
        have hno : ¬ OpensAt code k := by
          rintro ⟨i', hi', ho'⟩
          rw [hi] at hi'; cases hi'; rw [ho] at ho'; cases ho'
        exact ⟨hl.drop hno hd (Nat.zero_le _), he.push hkw (by omega)⟩

/-- The pass fails at an instruction that overdraws. -/
theorem Resolver.step_eq_error {r : Resolver} {i : Instruction} (h : Matches code k r)
    (hi : code[k]? = some i) (hov : Overdraws code k) :
    r.step i = .error (.unmatched i.op k) := by
  have hlen := h.levels.length
  have hsize := h.entries.size
  rcases hov with ⟨⟨i', hi', hop⟩, hlt⟩ | ⟨⟨i', hi', hop⟩, hlt⟩
  · rw [hi] at hi'; cases hi'
    match hopen : r.opened with
    | [] => simp only [step, hop, hopen, hsize]
    | _ :: _ => rw [hopen] at hlen; simp only [List.length_cons] at hlen; omega
  · rw [hi] at hi'; cases hi'
    match hopen : r.opened with
    | [] => simp only [step, hop, hopen, hsize]
    | [_] => simp only [step, hop, hopen, hsize]
    | _ :: _ :: _ => rw [hopen] at hlen; simp only [List.length_cons] at hlen; omega

theorem foldlM_take_succ {i : Instruction} (hi : code[k]? = some i) :
    (code.take (k + 1)).foldlM Resolver.step {} =
      (code.take k).foldlM Resolver.step {} >>= (Resolver.step · i) := by
  rw [List.take_add_one, hi, Option.toList_some, List.foldlM_append]
  simp

/-- Up to the first overdraw the pass knows all that the depth tells. -/
theorem matches_take (hk : k ≤ code.length) (hn : ∀ j, j < k → ¬ Overdraws code j) :
    ∃ r, (code.take k).foldlM Resolver.step {} = .ok r ∧ Resolver.Matches code k r := by
  induction k with
  | zero => exact ⟨{}, by simp [pure, Except.pure], levels_zero, entries_zero⟩
  | succ k ih =>
    obtain ⟨r, hr, hm⟩ := ih (by omega) fun j hj => hn j (by omega)
    have hi : code[k]? = some (code.get ⟨k, hk⟩) := by simp
    obtain ⟨r', hr', hm'⟩ := Resolver.matches_step hm hi (hn k (by omega))
    refine ⟨r', ?_, hm'⟩
    rw [foldlM_take_succ hi, hr]
    exact hr'

theorem depth_nonneg (hn : ∀ j, ¬ Overdraws code j) (hk : k ≤ code.length) : 0 ≤ depth code k := by
  obtain ⟨r, -, hm⟩ := matches_take hk fun j _ => hn j
  have := hm.levels.length
  omega

namespace Program

/-- Resolving fails at the first overdraw. -/
theorem resolve_eq_error {i : Instruction} (hi : code[k]? = some i) (hov : Overdraws code k)
    (hfirst : ∀ j, j < k → ¬ Overdraws code j) :
    resolve code = .error (.unmatched i.op k) := by
  have hk : k < code.length := (List.getElem?_eq_some_iff.mp hi).1
  obtain ⟨r, hr, hm⟩ := matches_take (by omega) hfirst
  have hsplit : code = code.take (k + 1) ++ code.drop (k + 1) := (List.take_append_drop ..).symm
  have hfold : code.foldlM Resolver.step {} = .error (.unmatched i.op k) := by
    rw [hsplit, List.foldlM_append, foldlM_take_succ hi, hr]
    change (r.step i >>= _) = _
    rw [Resolver.step_eq_error hm hi hov]
    rfl
  rw [resolve, hfold]
  rfl

/-- Resolving succeeds if nothing overdraws, and gives the table that the depth gives. -/
theorem resolve_eq_ok (hn : ∀ j, ¬ Overdraws code j) :
    ∃ p, resolve code = .ok p ∧ p.code.toList = code ∧ Entries code code.length p.targets := by
  obtain ⟨r, hr, hm⟩ := matches_take (Nat.le_refl _) fun j _ => hn j
  rw [List.take_length] at hr
  exact ⟨_, by rw [resolve, hr]; rfl, rfl, hm.entries⟩

/-- The first overdraw, if there is one. -/
theorem exists_first_overdraw (hov : Overdraws code k) :
    ∃ j i, code[j]? = some i ∧ Overdraws code j ∧ ∀ m, m < j → ¬ Overdraws code m := by
  classical
  have hex : ∃ j, Overdraws code j := ⟨k, hov⟩
  have hfirst : Overdraws code (Nat.find hex) := Nat.find_spec hex
  obtain ⟨i, hi⟩ : ∃ i, code[Nat.find hex]? = some i := by
    rcases hfirst with ⟨⟨i, hi, -⟩, -⟩ | ⟨⟨i, hi, -⟩, -⟩ <;> exact ⟨i, hi⟩
  exact ⟨Nat.find hex, i, hi, hfirst, fun m hm => Nat.find_min hex hm⟩

/-- What a success of resolving tells. -/
theorem entries_of_resolve {p : Program} (h : resolve code = .ok p) :
    (∀ j, ¬ Overdraws code j) ∧ Entries code code.length p.targets := by
  have hn : ∀ j, ¬ Overdraws code j := by
    intro j hov
    obtain ⟨m, i, hi, hm, hfirst⟩ := exists_first_overdraw hov
    rw [resolve_eq_error hi hm hfirst] at h
    cases h
  obtain ⟨p', hp', -, he⟩ := resolve_eq_ok hn
  rw [h] at hp'; cases hp'
  exact ⟨hn, he⟩

/-- **Matching by depth.** Resolving succeeds if and only if no closing word overdraws, and fails at
the first one that does. The program it gives has the same instructions and one entry for each; an
opener points to the word that closes it, except that a `wend` which leaves the depth of the opener
points back to the opener instead; every `wend` points back so; and all other entries are blank. -/
theorem resolve_matches_depth (code : List Instruction) :
    ((∃ p, resolve code = .ok p) ↔ ∀ k, ¬ Overdraws code k) ∧
    (∀ e, resolve code = .error e ↔ ∃ k i, code[k]? = some i ∧ Overdraws code k ∧
      (∀ j, j < k → ¬ Overdraws code j) ∧ e = .unmatched i.op k) ∧
    ∀ p, resolve code = .ok p →
      p.code.toList = code ∧ p.targets.size = code.length ∧
      (∀ i, OpensAt code i → (∀ j, ¬ Closes code i j) → p.targets[i]? = some none) ∧
      (∀ i j, OpensAt code i → Closes code i j →
        (HasOp code j .wend ∧ depth code (j + 1) = depth code i →
          p.targets[i]? = some none ∧ p.targets[j]? = some (some (i : Int))) ∧
        (¬ (HasOp code j .wend ∧ depth code (j + 1) = depth code i) →
          p.targets[i]? = some (some (j : Int)))) ∧
      (∀ j, HasOp code j .wend → ∃ i, OpensAt code i ∧ Closes code i j ∧
        depth code (j + 1) = depth code i ∧ p.targets[j]? = some (some (i : Int))) ∧
      ∀ k, k < code.length → ¬ OpensAt code k → ¬ HasOp code k .wend →
        p.targets[k]? = some none := by
  refine ⟨⟨fun ⟨p, hp⟩ => (entries_of_resolve hp).1, fun hn => ?_⟩, fun e => ⟨fun he => ?_, ?_⟩,
    fun p hp => ?_⟩
  · obtain ⟨p, hp, -⟩ := resolve_eq_ok hn
    exact ⟨p, hp⟩
  · by_cases hn : ∀ j, ¬ Overdraws code j
    · obtain ⟨p, hp, -⟩ := resolve_eq_ok hn
      rw [hp] at he; cases he
    · obtain ⟨j, hj⟩ : ∃ j, Overdraws code j := by simpa using hn
      obtain ⟨k, i, hi, hov, hfirst⟩ := exists_first_overdraw hj
      rw [resolve_eq_error hi hov hfirst] at he; cases he
      exact ⟨k, i, hi, hov, hfirst, rfl⟩
  · rintro ⟨k, i, hi, hov, hfirst, rfl⟩
    exact resolve_eq_error hi hov hfirst
  · obtain ⟨-, he⟩ := entries_of_resolve hp
    refine ⟨code_of_resolve hp, he.size, ?_, fun i j ho hc => ⟨?_, ?_⟩, ?_, ?_⟩
    · intro i ho hno
      exact he.blank i ho.lt (fun hw => ho.not_hasOp rfl hw) fun _ j _ => hno j
    · rintro ⟨hw, heq⟩
      exact he.outer i j ho hc hc.inside hw heq
    · exact he.inner i j ho hc hc.inside
    · intro j hw
      obtain ⟨i, ho, hc, heq⟩ := he.wend j hw.lt hw
      exact ⟨i, ho, hc, heq, (he.outer i j ho hc hc.inside hw heq).2⟩
    · intro k hk hno hw
      exact he.blank k hk hw fun ho => absurd ho hno

/-! ## Reading the table -/

theorem target?_natCast (p : Program) (i : Nat) : p.target? i = p.targets[i]?.join := by
  simp [target?, entryAt?, show ¬ (i : Int) < 0 by omega]

theorem fetch?_natCast (p : Program) (i : Nat) : p.fetch? i = p.code[i]? := by
  simp [fetch?, entryAt?, show ¬ (i : Int) < 0 by omega]

variable {p : Program} (hp : resolve code = .ok p)

include hp

theorem fetch?_of_resolve (i : Nat) : p.fetch? i = code[i]? := by
  rw [fetch?_natCast, ← code_of_resolve hp, Array.getElem?_toList]

theorem size_of_resolve : p.size = code.length := by
  rw [← code_of_resolve hp, Array.length_toList, size]

/-- An opener points to the word that closes it, if it points anywhere. -/
theorem exists_closes_of_target {i : Nat} {t : Int} (ho : OpensAt code i)
    (ht : p.target? i = some t) : ∃ j : Nat, t = j ∧ Closes code i j := by
  obtain ⟨-, he⟩ := entries_of_resolve hp
  rw [target?_natCast] at ht
  by_cases hc : ∃ m, Closes code i m
  · obtain ⟨m, hc⟩ := hc
    by_cases hw : HasOp code m .wend ∧ depth code (m + 1) = depth code i
    · rw [(he.outer i m ho hc hc.inside hw.1 hw.2).1] at ht; cases ht
    · rw [he.inner i m ho hc hc.inside hw] at ht
      exact ⟨m, by simpa using ht.symm, hc⟩
  · rw [he.blank i ho.lt (fun hw => ho.not_hasOp rfl hw) fun _ m _ hm => hc ⟨m, hm⟩] at ht
    cases ht

/-- A `wend` points back to the outer one of the words that it closes. -/
theorem exists_closes_of_wend {j : Nat} (hw : HasOp code j .wend) : ∃ i : Nat,
    p.target? j = some (i : Int) ∧ Closes code i j ∧ depth code (j + 1) = depth code i := by
  obtain ⟨-, he⟩ := entries_of_resolve hp
  obtain ⟨i, ho, hc, heq⟩ := he.wend j hw.lt hw
  refine ⟨i, ?_, hc, heq⟩
  rw [target?_natCast, (he.outer i j ho hc hc.inside hw heq).2]; rfl

end Program

end

end WordStack
