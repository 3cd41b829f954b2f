import Mathlib.Logic.ExistsUnique
import WordStack.Proofs.Program.Depth

/-!
# Matched pairs

Two positions are a matched pair if one of them points to the other: an opener to the word that
closes it, or a `wend` back to where its loop starts. Whatever the kinds of the words that meet, the
pairs are nested like brackets, except that a `wend` closes two of them at once.

* `Program.Pairs`: the pairs of a program. `pairs_iff_closes`: these are the openers with the words
  that close them, so all that is said here follows from the depth.
* `Levels.closes_end`, `Levels.closes_wend`: what a closing word closes, by the stack of the pass.
* `Entries.getElem?_eq`: an entry of the table is final unless it belongs to a word that is open.
* `resolve_pairs_nested`: all of it together.
-/
namespace WordStack

section
variable {code : List Instruction} {k i j : Nat}

/-! ## Openers and what closes them -/

/-- What closes an opener takes something off the depth. -/
theorem Closes.hasOp (hc : Closes code i j) (ho : OpensAt code i) :
    HasOp code j .endMark ∨ HasOp code j .wend := by
  have hj : code[j]? = some (code.get ⟨j, hc.inside⟩) := by simp
  have habove := depth_lt_of_open ho hc.lt hc.first
  have hlow := hc.low
  rw [depth_succ hj] at hlow
  cases hop : (code.get ⟨j, hc.inside⟩).op with
  | endMark => exact .inl ⟨_, hj, hop⟩
  | wend => exact .inr ⟨_, hj, hop⟩
  | _ =>
    rw [hop] at hlow
    simp only [Op.weight] at hlow
    omega

/-- Between an opener and the word that closes it, everything is deeper. -/
theorem Closes.depth_lt (hc : Closes code i j) (ho : OpensAt code i) (hik : i < k) (hkj : k ≤ j) :
    depth code i < depth code k :=
  depth_lt_of_open ho hik fun m him hmk => hc.first m him (by omega)

/-- An opener inside of a pair is closed with it at the latest. -/
theorem Closes.le_of_inside {i' j' : Nat} (hc : Closes code i j) (ho : OpensAt code i)
    (hc' : Closes code i' j') (hii' : i < i') (hi'j : i' < j) : j' ≤ j := by
  rcases Nat.lt_or_ge j j' with hjj' | hge
  · have hdeeper := hc.depth_lt ho hii' (Nat.le_of_lt hi'j)
    have hfirst := hc'.first j hi'j hjj'
    have hlow := hc.low
    omega
  · exact hge

/-- What is no longer open has been closed. -/
theorem Levels.exists_closes {opened : List Nat} (hl : Levels code k opened)
    (hk : k ≤ code.length) (hik : i < k) (ho : OpensAt code i) (hi : i ∉ opened) :
    ∃ j, j < k ∧ Closes code i j := by
  classical
  have hex : ∃ j, i < j ∧ j < k ∧ depth code (j + 1) ≤ depth code i := by
    rw [hl.mem] at hi
    by_contra hno
    refine hi ⟨hik, ho, fun j hij hjk => ?_⟩
    by_contra hlow
    exact hno ⟨j, hij, hjk, by omega⟩
  obtain ⟨hij, hjk, hlow⟩ := Nat.find_spec hex
  refine ⟨Nat.find hex, hjk, hij, by omega, hlow, fun m him hm => ?_⟩
  by_contra hle
  exact Nat.find_min hex hm ⟨him, by omega, by omega⟩

/-- `end` closes the innermost open word and no other. -/
theorem Levels.closes_end {opened : List Nat} (hl : Levels code j opened)
    (hend : HasOp code j .endMark) (ho : OpensAt code i) :
    Closes code i j ↔ opened[0]? = some i := by
  have hd := depth_succ_of_end hend
  rw [hl.closes_iff hend.lt ho]
  constructor
  · rintro ⟨n, hn, hlow⟩
    obtain rfl : n = 0 := by omega
    exact hn
  · intro hn
    exact ⟨0, hn, by omega⟩

/-- `wend` closes the two innermost open words and no other. -/
theorem Levels.closes_wend {opened : List Nat} (hl : Levels code j opened)
    (hwend : HasOp code j .wend) (ho : OpensAt code i) :
    Closes code i j ↔ opened[0]? = some i ∨ opened[1]? = some i := by
  have hd := depth_succ_of_wend hwend
  rw [hl.closes_iff hwend.lt ho]
  constructor
  · rintro ⟨n, hn, hlow⟩
    obtain rfl | rfl : n = 0 ∨ n = 1 := by omega
    · exact .inl hn
    · exact .inr hn
  · rintro (hn | hn)
    · exact ⟨0, hn, by omega⟩
    · exact ⟨1, hn, by omega⟩

/-- Of two open words the inner one stands further back. -/
theorem Levels.lt_of_lt {opened : List Nat} (hl : Levels code k opened) {m n a b : Nat}
    (ha : opened[m]? = some a) (hb : opened[n]? = some b) (hmn : m < n) : b < a := by
  have hda := hl.level m a ha
  have hdb := hl.level n b hb
  obtain ⟨hak, hao, hopen⟩ := (hl.mem a).mp (List.mem_of_getElem? ha)
  rcases Nat.lt_trichotomy a b with hab | rfl | hba
  · -- the outer word would stand where everything is deeper
    have := depth_lt_of_open hao hab fun j haj hjb =>
      hopen j haj (Nat.lt_trans hjb ((hl.mem b).mp (List.mem_of_getElem? hb)).1)
    omega
  · omega
  · exact hba

/-! ## Entries of the table -/

/-- The pairs among the first `k` instructions, read off the table. -/
theorem Entries.pairs_iff {targets : Array (Option Int)} (he : Entries code k targets) :
    OpensAt code i ∧ targets[i]?.join = some (j : Int) ∨
        HasOp code j .wend ∧ targets[j]?.join = some (i : Int) ↔
      OpensAt code i ∧ Closes code i j ∧ j < k := by
  have hbound : ∀ {a b : Nat}, targets[a]?.join = some (b : Int) → a < k := by
    intro a b hab
    by_contra hka
    rw [Array.getElem?_eq_none (by rw [he.size]; omega)] at hab
    cases hab
  constructor
  · rintro (⟨ho, ht⟩ | ⟨hw, ht⟩)
    · by_cases hc : ∃ m, m < k ∧ Closes code i m
      · obtain ⟨m, hm, hc⟩ := hc
        by_cases hback : HasOp code m .wend ∧ depth code (m + 1) = depth code i
        · rw [(he.outer i m ho hc hm hback.1 hback.2).1] at ht; cases ht
        · rw [he.inner i m ho hc hm hback] at ht
          obtain rfl : m = j := Int.ofNat.inj (Option.some.inj ht)
          exact ⟨ho, hc, hm⟩
      · rw [he.blank i (hbound ht) (fun hw => ho.not_hasOp rfl hw)
          fun _ m hm hcm => hc ⟨m, hm, hcm⟩] at ht
        cases ht
    · have hj := hbound ht
      obtain ⟨m, ho, hc, heq⟩ := he.wend j hj hw
      rw [(he.outer m j ho hc hj hw heq).2] at ht
      obtain rfl : m = i := Int.ofNat.inj (Option.some.inj ht)
      exact ⟨ho, hc, hj⟩
  · rintro ⟨ho, hc, hj⟩
    by_cases hback : HasOp code j .wend ∧ depth code (j + 1) = depth code i
    · exact .inr ⟨hback.1, by rw [(he.outer i j ho hc hj hback.1 hback.2).2]; rfl⟩
    · exact .inl ⟨ho, by rw [he.inner i j ho hc hj hback]; rfl⟩

/-- An entry that does not belong to an open word stays as it is. -/
theorem Entries.getElem?_eq {targets targets' : Array (Option Int)} {opened : List Nat} {k' : Nat}
    (he : Entries code k targets) (hl : Levels code k opened) (he' : Entries code k' targets')
    (hkk' : k ≤ k') (hk : k ≤ code.length) (hik : i < k) (hi : i ∉ opened) :
    targets'[i]? = targets[i]? := by
  by_cases hw : HasOp code i .wend
  · obtain ⟨o, ho, hc, heq⟩ := he.wend i hik hw
    rw [(he.outer o i ho hc hik hw heq).2, (he'.outer o i ho hc (by omega) hw heq).2]
  · by_cases ho : OpensAt code i
    · obtain ⟨j, hj, hc⟩ := hl.exists_closes hk hik ho hi
      by_cases hback : HasOp code j .wend ∧ depth code (j + 1) = depth code i
      · rw [(he.outer i j ho hc hj hback.1 hback.2).1,
          (he'.outer i j ho hc (by omega) hback.1 hback.2).1]
      · rw [he.inner i j ho hc hj hback, he'.inner i j ho hc (by omega) hback]
    · rw [he.blank i hik hw fun h => absurd h ho, he'.blank i (by omega) hw fun h => absurd h ho]

end

namespace Program

/-- The opener at `i` and the closing word at `j` are a pair: one of them points to the other. -/
def Pairs (p : Program) (i j : Nat) : Prop :=
  OpensAt p.code.toList i ∧ p.target? i = some (j : Int) ∨
    HasOp p.code.toList j .wend ∧ p.target? j = some (i : Int)

section
variable {code : List Instruction} {p : Program} (hp : resolve code = .ok p) {i j : Nat}

include hp

theorem pairs_iff_closes : p.Pairs i j ↔ OpensAt code i ∧ Closes code i j := by
  obtain ⟨-, he⟩ := entries_of_resolve hp
  rw [Pairs, code_of_resolve hp, target?_natCast, target?_natCast, he.pairs_iff]
  exact ⟨fun ⟨ho, hc, _⟩ => ⟨ho, hc⟩, fun ⟨ho, hc⟩ => ⟨ho, hc, hc.inside⟩⟩

/-- The words that are open in front of a position. -/
theorem exists_levels {k : Nat} (hk : k ≤ code.length) : ∃ opened, Levels code k opened := by
  obtain ⟨r, -, hm⟩ := matches_take hk fun m _ => (entries_of_resolve hp).1 m
  exact ⟨r.opened, hm.levels⟩

theorem existsUnique_pairs_end (hend : HasOp code j .endMark) : ∃! i, p.Pairs i j := by
  obtain ⟨opened, hl⟩ := exists_levels hp (Nat.le_of_lt hend.lt)
  have hdeep : ¬ depth code j < 1 := fun hlt =>
    (entries_of_resolve hp).1 j (.inl ⟨hend, hlt⟩)
  have hlen := hl.length
  obtain ⟨o, ho⟩ : ∃ o, opened[0]? = some o := ⟨_, List.getElem?_eq_getElem (by omega)⟩
  have hopens := ((hl.mem o).mp (List.mem_of_getElem? ho)).2.1
  refine ⟨o, (pairs_iff_closes hp).mpr ⟨hopens, (hl.closes_end hend hopens).mpr ho⟩, ?_⟩
  intro i hi
  obtain ⟨hi, hc⟩ := (pairs_iff_closes hp).mp hi
  rw [hl.closes_end hend hi, ho] at hc
  exact (Option.some.inj hc).symm

/-- The two words that a `wend` closes: the inner one points to it, and it points to the outer one,
which has no target. -/
theorem exists_pairs_wend (hwend : HasOp code j .wend) : ∃ w d : Nat, w < d ∧ d < j ∧
    p.target? d = some (j : Int) ∧ p.target? j = some (w : Int) ∧ p.targets[w]? = some none ∧
    ∀ i, p.Pairs i j ↔ i = d ∨ i = w := by
  obtain ⟨hn, he⟩ := entries_of_resolve hp
  obtain ⟨opened, hl⟩ := exists_levels hp (Nat.le_of_lt hwend.lt)
  have hdeep : ¬ depth code j < 2 := fun hlt => hn j (.inr ⟨hwend, hlt⟩)
  have hlen := hl.length
  obtain ⟨d, hd⟩ : ∃ d, opened[0]? = some d := ⟨_, List.getElem?_eq_getElem (by omega)⟩
  obtain ⟨w, hw⟩ : ∃ w, opened[1]? = some w := ⟨_, List.getElem?_eq_getElem (by omega)⟩
  obtain ⟨hdj, hdo, -⟩ := (hl.mem d).mp (List.mem_of_getElem? hd)
  obtain ⟨-, hwo, -⟩ := (hl.mem w).mp (List.mem_of_getElem? hw)
  have hdc : Closes code d j := (hl.closes_wend hwend hdo).mpr (.inl hd)
  have hwc : Closes code w j := (hl.closes_wend hwend hwo).mpr (.inr hw)
  -- the levels tell which of them is the outer one
  have hdlevel := hl.level 0 d hd
  have hwlevel := hl.level 1 w hw
  have hdepth := depth_succ_of_wend hwend
  obtain ⟨hblank, hback⟩ := he.outer w j hwo hwc hwc.inside hwend (by omega)
  have hinner := he.inner d j hdo hdc hdc.inside fun h => by have := h.2; omega
  refine ⟨w, d, hl.lt_of_lt hd hw (by omega), hdj, ?_, ?_, hblank, fun i => ?_⟩
  · rw [target?_natCast, hinner]; rfl
  · rw [target?_natCast, hback]; rfl
  · rw [pairs_iff_closes hp]
    constructor
    · rintro ⟨ho, hc⟩
      rcases (hl.closes_wend hwend ho).mp hc with hi | hi
      · rw [hd] at hi; exact .inl (Option.some.inj hi).symm
      · rw [hw] at hi; exact .inr (Option.some.inj hi).symm
    · rintro (rfl | rfl)
      · exact ⟨hdo, hdc⟩
      · exact ⟨hwo, hwc⟩

/-- Two pairs of which the first begins first: the second one lies behind it or inside of it, or the
same `wend` closes both. -/
theorem Pairs.nested {i' j' : Nat} (h : p.Pairs i j) (h' : p.Pairs i' j') (hii' : i < i') :
    j < i' ∨ j' < j ∨ j = j' ∧ HasOp code j .wend := by
  obtain ⟨ho, hc⟩ := (pairs_iff_closes hp).mp h
  obtain ⟨ho', hc'⟩ := (pairs_iff_closes hp).mp h'
  rcases Nat.lt_trichotomy j i' with hji' | rfl | hi'j
  · exact .inl hji'
  · -- an opener closes nothing
    rcases hc.hasOp ho with hend | hwend
    · exact absurd hend (ho'.not_hasOp rfl)
    · exact absurd hwend (ho'.not_hasOp rfl)
  · rcases Nat.lt_or_eq_of_le (hc.le_of_inside ho hc' hii' hi'j) with hj'j | rfl
    · exact .inr (.inl hj'j)
    · rcases hc.hasOp ho with hend | hwend
      · exact absurd ((existsUnique_pairs_end hp hend).unique h h') (Nat.ne_of_lt hii')
      · exact .inr (.inr ⟨rfl, hwend⟩)

/-- The front of code that resolves resolves too, and its entries are final unless they belong to a
word that it leaves open. -/
theorem resolve_front {front back : List Instruction} (hcode : code = front ++ back) :
    ∃ q, resolve front = .ok q ∧ (∀ i j, q.Pairs i j → p.Pairs i j) ∧
      ∀ i, i < front.length → (OpensAt front i → ∃ j, q.Pairs i j) →
        p.targets[i]? = q.targets[i]? := by
  obtain ⟨hn, he⟩ := entries_of_resolve hp
  have hk : front.length ≤ code.length := by rw [hcode, List.length_append]; omega
  obtain ⟨r, hr, hl, hq⟩ := matches_take hk fun m _ => hn m
  rw [hcode, List.take_left] at hr
  have hfront : ∀ m, m < front.length → code[m]? = front[m]? := by
    intro m hm
    rw [hcode, List.getElem?_append_left hm]
  -- the pairs of the front are those of the whole code that end in it
  have hpairs : ∀ i j, Pairs ⟨front.toArray, r.targets⟩ i j →
      OpensAt code i ∧ Closes code i j ∧ j < front.length := by
    intro i j hij
    rw [Pairs, target?_natCast, target?_natCast] at hij
    refine hq.pairs_iff.mp (hij.imp ?_ ?_)
    · rintro ⟨⟨x, hx, hop⟩, ht⟩
      exact ⟨⟨x, by rw [hfront i (OpensAt.lt ⟨x, hx, hop⟩)]; exact hx, hop⟩, ht⟩
    · rintro ⟨⟨x, hx, hop⟩, ht⟩
      exact ⟨⟨x, by rw [hfront j (HasOp.lt ⟨x, hx, hop⟩)]; exact hx, hop⟩, ht⟩
  refine ⟨⟨front.toArray, r.targets⟩, by rw [resolve, hr]; rfl, fun i j hij => ?_,
    fun i hi hpaired => ?_⟩
  · obtain ⟨ho, hc, -⟩ := hpairs i j hij
    exact (pairs_iff_closes hp).mpr ⟨ho, hc⟩
  · refine hq.getElem?_eq hl he hk hk hi fun hopen => ?_
    obtain ⟨x, hx, hop⟩ := ((hl.mem i).mp hopen).2.1
    obtain ⟨j, hij⟩ := hpaired ⟨x, by rw [← hfront i hi]; exact hx, hop⟩
    obtain ⟨-, hc, hj⟩ := hpairs i j hij
    exact absurd (hl.le_of_closes hopen hc) (by omega)

/-- **Matched pairs are nested and share nothing.** A pair is an opener and a closing word behind it.
No opener is in two pairs; `end` closes one pair, and `wend` two, of which the outer word has no
target. Of two pairs one lies behind the other or inside of it, unless the same `wend` closes both.
What the front of the code pairs stays as it is: its table agrees with the one of the whole code
except where it leaves an opener unpaired. -/
theorem resolve_pairs_nested :
    (∀ i j, p.Pairs i j →
      i < j ∧ OpensAt code i ∧ (HasOp code j .endMark ∨ HasOp code j .wend)) ∧
    (∀ i j j', p.Pairs i j → p.Pairs i j' → j = j') ∧
    (∀ j, HasOp code j .endMark → ∃! i, p.Pairs i j) ∧
    (∀ j, HasOp code j .wend → ∃ w d : Nat, w < d ∧ d < j ∧ p.target? d = some (j : Int) ∧
      p.target? j = some (w : Int) ∧ p.targets[w]? = some none ∧
      ∀ i, p.Pairs i j ↔ i = d ∨ i = w) ∧
    (∀ i j i' j', p.Pairs i j → p.Pairs i' j' → (i, j) ≠ (i', j') →
      j < i' ∨ j' < i ∨ i < i' ∧ j' < j ∨ i' < i ∧ j < j' ∨ j = j' ∧ HasOp code j .wend) ∧
    ∀ front back, code = front ++ back → ∃ q, resolve front = .ok q ∧
      (∀ i j, q.Pairs i j → p.Pairs i j) ∧
      ∀ i, i < front.length → (OpensAt front i → ∃ j, q.Pairs i j) →
        p.targets[i]? = q.targets[i]? := by
  have hsame : ∀ i j j', p.Pairs i j → p.Pairs i j' → j = j' := by
    intro i j j' h h'
    exact ((pairs_iff_closes hp).mp h).2.unique ((pairs_iff_closes hp).mp h').2
  refine ⟨fun i j h => ?_, hsame, fun j => existsUnique_pairs_end hp,
    fun j => exists_pairs_wend hp, fun i j i' j' h h' hne => ?_,
    fun front back => resolve_front hp⟩
  · obtain ⟨ho, hc⟩ := (pairs_iff_closes hp).mp h
    exact ⟨hc.lt, ho, hc.hasOp ho⟩
  · rcases Nat.lt_trichotomy i i' with hii' | rfl | hi'i
    · rcases Pairs.nested hp h h' hii' with hbehind | hinside | hboth
      · exact .inl hbehind
      · exact .inr (.inr (.inl ⟨hii', hinside⟩))
      · exact .inr (.inr (.inr (.inr hboth)))
    · exact absurd (by rw [hsame i j j' h h']) hne
    · rcases Pairs.nested hp h' h hi'i with hbehind | hinside | ⟨rfl, hwend⟩
      · exact .inr (.inl hbehind)
      · exact .inr (.inr (.inr (.inl ⟨hi'i, hinside⟩)))
      · exact .inr (.inr (.inr (.inr ⟨rfl, hwend⟩)))

end

/-- The code `do if end if wend while`, in which no word meets its own kind but the `end`. -/
def mixedBlocks : Program where
  code := #[{ op := .doTest }, { op := .ifTest }, { op := .endMark }, { op := .ifTest },
    { op := .wend }, { op := .whileMark }]
  targets := #[none, some 2, none, some 4, some 0, none]

theorem resolve_pairs_nested_mixed :
    resolve mixedBlocks.code.toList = .ok mixedBlocks ∧
    (∀ i, mixedBlocks.Pairs i 4 ↔ i = 3 ∨ i = 0) ∧ (∃! i, mixedBlocks.Pairs i 2) ∧
    ∃ q, resolve (mixedBlocks.code.toList.take 4) = .ok q ∧
      mixedBlocks.targets[1]? = q.targets[1]? ∧ mixedBlocks.targets[3]? ≠ q.targets[3]? := by
  have hp : resolve mixedBlocks.code.toList = .ok mixedBlocks := rfl
  obtain ⟨-, -, hend, hwend, -, hfront⟩ := resolve_pairs_nested hp
  obtain ⟨w, d, -, -, hd, hw, -, hpairs⟩ := hwend 4 ⟨_, rfl, rfl⟩
  obtain ⟨q, hq, -, hagree⟩ := hfront _ _ (List.take_append_drop 4 _).symm
  have hw0 : w = 0 := by
    have : mixedBlocks.target? (4 : Nat) = some 0 := rfl
    rw [this] at hw
    simpa using hw.symm
  have hd3 : d = 3 := by
    have h3 : mixedBlocks.Pairs 3 4 := .inl ⟨⟨_, rfl, rfl⟩, rfl⟩
    rcases (hpairs 3).mp h3 with h | h
    · exact h.symm
    · omega
  subst hw0 hd3
  refine ⟨hp, hpairs, hend 2 ⟨_, rfl, rfl⟩, q, hq, hagree 1 (by decide) fun _ => ⟨2, ?_⟩, ?_⟩
  · cases hq
    exact .inl ⟨⟨_, rfl, rfl⟩, rfl⟩
  · cases hq
    decide

end Program

end WordStack
