import WordStack.Proofs.Program.Depth
import WordStack.Proofs.Session.Progress
import WordStack.Proofs.Session.Stepwise

/-!
# Only `wend` goes back

In a resolved program `if` and `do` jump to words behind them, whatever the kinds of the words that
meet, so every instruction but `wend` moves the machine ahead. The length of the code thus bounds
the number of instructions from one `wend` to the next, and the number of `wend`s bounds a run.

* `Machine.perform_visits`: what an operation can do to the next position.
* `Session.run_lands`: where the next instruction of a run is, whatever the sinks and the logger do
  to it.
* `run_forward`: so what runs of resolved programs may do.
-/
namespace WordStack

/-! ## Scripts -/

namespace Machine

variable {Q : Int → Int → Prop} {m : Machine} {p : Program} {strict : Bool} {op : Op}

/-- A script on the way through which only certain pairs of the current and the next position are
met. -/
abbrev Visits (Q : Int → Int → Prop) (script : Script) : Prop :=
  script.Visits fun m => Q m.current m.next

theorem pop_visits {k : Value → Machine → Script} (hm : Q m.current m.next)
    (hk : ∀ v stack, Visits Q (k v { m with stack })) : Visits Q (m.pop op k) := by
  unfold pop
  split
  · exact hm
  · exact hk _ _

theorem mismatch_visits {v : Value} {k : Machine → Script} (hm : Q m.current m.next)
    (hk : ∀ mismatches, Visits Q (k { m with mismatches })) :
    Visits Q (m.mismatch strict op v k) := by
  refine ⟨hm, ?_⟩
  cases strict with
  | true => exact hm
  | false => exact hk _

theorem binary_visits {f : Int32 → Int32 → Except Error Int32} (hm : Q m.current m.next) :
    Visits Q (m.binary strict op f) := by
  refine pop_visits hm fun right _ => pop_visits hm fun left _ => ?_
  match right, left with
  | .int r, .int l =>
    dsimp only
    split <;> exact hm
  | .text _, _ => exact mismatch_visits hm fun _ => hm
  | .int _, .text _ => exact mismatch_visits hm fun _ => hm

theorem truth_visits {k : Bool → Machine → Script} (hm : Q m.current m.next)
    (hk : ∀ holds stack mismatches, Visits Q (k holds { m with stack, mismatches })) :
    Visits Q (m.truth strict op k) := by
  refine pop_visits hm fun v _ => ?_
  match v with
  | .int n => exact hk _ _ _
  | .text _ => exact mismatch_visits hm fun _ => hk _ _ _

theorem target_visits {k : Int → Script} (hm : Q m.current m.next)
    (hk : ∀ t, p.target? m.current = some t → Visits Q (k t)) : Visits Q (m.target p k) := by
  unfold target
  split
  · next t ht => exact hk t ht
  · exact hm

/-- An operation leaves the next position alone, but for the jumps. -/
theorem perform_visits (hm : Q m.current m.next)
    (hjump : op = .ifTest ∨ op = .wend → ∀ t, p.target? m.current = some t → Q m.current t)
    (hpast : op = .doTest → ∀ t, p.target? m.current = some t → Q m.current (p.past t)) :
    Visits Q (m.perform p strict op) := by
  cases op with
  | push =>
    rw [perform]
    split <;> exact hm
  | ifTest =>
    rw [perform]
    refine truth_visits hm fun holds _ _ => ?_
    cases holds with
    | true => exact hm
    | false => exact target_visits hm fun t ht => ⟨hm, hjump (.inl rfl) t ht⟩
  | doTest =>
    rw [perform]
    refine truth_visits hm fun holds _ _ => ?_
    cases holds with
    | true => exact hm
    | false => exact target_visits hm fun t ht => ⟨hm, hpast rfl t ht⟩
  | wend => rw [perform]; exact target_visits hm fun t ht => ⟨hm, hjump (.inr rfl) t ht⟩
  | dup => rw [perform]; exact pop_visits hm fun _ _ => hm
  | print => rw [perform]; exact pop_visits hm fun _ _ => ⟨hm, hm, hm⟩
  | whileMark | endMark | word | unknown => rw [perform]; exact hm
  | _ => rw [perform]; exact binary_visits hm

/-- Where an instruction at `k` may leave the machine: the next position is in the code or just
behind it, and behind `k` if it is no `wend`. -/
structure Lands (size : Nat) (k : Nat) (op : Op) (current next : Int) : Prop where
  current : current = k
  low : 0 ≤ next
  high : next ≤ size
  forward : op ≠ .wend → k < next

theorem step_lands {code : List Instruction} {k : Nat} {i : Instruction}
    (hp : Program.resolve code = .ok p) (hnext : m.next = k) (hi : code[k]? = some i) :
    Visits (Lands code.length k i.op) (m.step p strict) := by
  have hk : k < code.length := (List.getElem?_eq_some_iff.mp hi).1
  have hsize := Program.size_of_resolve hp
  -- an opener points to a later place
  have hopener : i.op.isOpener = true → ∀ t, p.target? k = some t → k < t ∧ t < code.length := by
    intro ho t ht
    obtain ⟨j, rfl, hc⟩ := Program.exists_closes_of_target hp ⟨i, hi, ho⟩ ht
    have := hc.lt; have := hc.inside
    omega
  have hstay : Lands code.length k i.op (k : Int) (k + 1) :=
    ⟨rfl, by omega, by omega, fun _ => by omega⟩
  unfold step
  simp only [hnext, Program.fetch?_of_resolve hp, hi]
  refine ⟨hstay, perform_visits hstay ?_ ?_⟩
  · rintro (hop | hop) t ht
    · obtain ⟨hlt, hin⟩ := hopener (by rw [hop]; rfl) t ht
      exact ⟨rfl, by omega, by omega, fun _ => hlt⟩
    · obtain ⟨j, hj, hc, -⟩ := Program.exists_closes_of_wend hp ⟨i, hi, hop⟩
      have := hc.lt
      rw [show p.target? k = some t from ht] at hj
      cases hj
      exact ⟨rfl, by omega, by omega, fun hne => absurd hop hne⟩
  · intro hop t ht
    obtain ⟨hlt, hin⟩ := hopener (by rw [hop]; rfl) t ht
    rw [Program.past, if_pos (by omega)]
    exact ⟨rfl, by omega, by omega, fun _ => by omega⟩

end Machine

/-! ## Runs -/

namespace Session

/-- The position of the instruction that a run executes behind `k` others, if it comes so far. -/
def positionAt? (s : Session) (c : Context) (k : Nat) : Option Int :=
  match s.run c k with
  | (.unfinished, s') => some s'.machine.next
  | (.ended _, _) => none

/-- The instruction that a run executes behind `k` others is a `wend`. -/
def wendAt (s : Session) (c : Context) (k : Nat) : Bool :=
  ((s.positionAt? c k).bind s.program.fetch?).any (·.op == .wend)

/-- The number of `wend`s among the first `n` instructions of a run. -/
def wendsWithin (s : Session) (c : Context) (n : Nat) : Nat := (List.range n).countP (s.wendAt c)

/-- A run executes so many instructions, or more. -/
def Executes (s : Session) (c : Context) (n : Nat) : Prop := ∀ k < n, (s.positionAt? c k).isSome

variable {s : Session} {c : Context} {k n : Nat}

theorem positionAt?_eq_some {pos : Int} : s.positionAt? c k = some pos ↔
    (s.run c k).1 = .unfinished ∧ (s.run c k).2.machine.next = pos := by
  unfold positionAt?
  split
  · next h => simp [h]
  · next h => simp [h]

theorem wendsWithin_succ (s : Session) (c : Context) (n : Nat) :
    s.wendsWithin c (n + 1) = s.wendsWithin c n + if s.wendAt c n then 1 else 0 := by
  rw [wendsWithin, List.range_succ, List.countP_append, List.countP_singleton, wendsWithin]

section
variable {code : List Instruction} (hp : Program.resolve code = .ok s.program)
  (hlow : 0 ≤ s.machine.next)

include hp

/-- One instruction of a run. -/
theorem run_lands {pos : Int} (hpos : s.positionAt? c k = some pos) (hnonneg : 0 ≤ pos) :
    pos < code.length ∧ ∃ op, (op = .wend ↔ s.wendAt c k = true) ∧
      Machine.Lands code.length pos.toNat op (s.run c (k + 1)).2.machine.current
        (s.run c (k + 1)).2.machine.next := by
  obtain ⟨hfst, hnext⟩ := positionAt?_eq_some.mp hpos
  have hrun := run_eq_of_fst hfst
  have hlt := next_lt_of_unfinished hrun
  rw [hnext, Program.size_of_resolve hp] at hlt
  obtain ⟨j, rfl⟩ := Int.eq_ofNat_of_zero_le hnonneg
  have hi : code[j]? = some code[j] := List.getElem?_eq_getElem (by omega)
  refine ⟨hlt, _, ?_, run_succ_visits hrun (Machine.step_lands hp hnext hi)⟩
  rw [wendAt, hpos, Option.bind_some, Program.fetch?_of_resolve hp, hi]
  simp

theorem wendAt_eq_false (hnone : ∀ i ∈ code, i.op ≠ .wend) (k : Nat) : s.wendAt c k = false := by
  rw [wendAt, Option.any_eq_false]
  intro i hi
  obtain ⟨pos, -, hfetch⟩ := Option.bind_eq_some_iff.mp hi
  have hmem : i ∈ code := by
    rw [← Program.code_of_resolve hp]
    unfold Program.fetch? entryAt? at hfetch
    split at hfetch
    · cases hfetch
    · exact Array.mem_toList_iff.mpr (Array.mem_of_getElem? hfetch)
  simpa using hnone i hmem

include hlow

/-- The position is never in front of the code. -/
theorem position_nonneg (k : Nat) {pos : Int} (hpos : s.positionAt? c k = some pos) : 0 ≤ pos := by
  induction k generalizing pos with
  | zero =>
    obtain ⟨-, rfl⟩ := positionAt?_eq_some.mp hpos
    rw [run_zero_machine]; exact hlow
  | succ k ih =>
    obtain ⟨hfst, rfl⟩ := positionAt?_eq_some.mp hpos
    have hbefore := positionAt?_eq_some.mpr ⟨unfinished_of_le hfst (Nat.le_succ k), rfl⟩
    obtain ⟨-, op, -, hlands⟩ := run_lands hp hbefore (ih hbefore)
    exact hlands.low

/-- From one `wend` to the next the position grows by one at least with every instruction. -/
theorem position_grows {m d : Nat} {pos : Int} (hpos : s.positionAt? c (m + d) = some pos)
    (hwend : ∀ k, m ≤ k → k < m + d → s.wendAt c k = false) : d ≤ pos := by
  induction d generalizing pos with
  | zero => have := position_nonneg hp hlow m hpos; omega
  | succ d ih =>
    obtain ⟨hfst, rfl⟩ := positionAt?_eq_some.mp hpos
    have hbefore := positionAt?_eq_some.mpr ⟨unfinished_of_le hfst (Nat.le_succ (m + d)), rfl⟩
    have hle := ih hbefore fun k hmk hk => hwend k hmk (by omega)
    obtain ⟨-, op, hop, hlands⟩ := run_lands hp hbefore (position_nonneg hp hlow _ hbefore)
    have hne : op ≠ .wend := fun h => by
      have := hop.mp h
      rw [hwend (m + d) (by omega) (by omega)] at this
      cases this
    have := hlands.forward hne
    rw [← Nat.add_assoc]
    omega

/-- Each `wend` pays for the length of the code, and the position for what came behind it. -/
theorem executed_le (h : s.Executes c n) :
    (n : Int) ≤ s.wendsWithin c n * code.length + (s.run c n).2.machine.next := by
  induction n with
  | zero => rw [run_zero_machine]; simpa [wendsWithin] using hlow
  | succ n ih =>
    obtain ⟨pos, hpos⟩ := Option.isSome_iff_exists.mp (h n (by omega))
    have hle := ih fun k hk => h k (by omega)
    rw [(positionAt?_eq_some.mp hpos).2] at hle
    have hnonneg := position_nonneg hp hlow n hpos
    obtain ⟨hlt, op, hop, hlands⟩ := run_lands hp hpos hnonneg
    have hlands_low := hlands.low
    rw [wendsWithin_succ]
    cases hw : s.wendAt c n with
    | true =>
      rw [if_pos rfl]
      push_cast
      rw [Int.add_mul]
      omega
    | false =>
      have := hlands.forward fun h => by rw [hop.mp h] at hw; cases hw
      simp only [Bool.false_eq_true, if_false, Nat.add_zero]
      omega

end

theorem Executes.of_unfinished (h : (s.run c n).1 = .unfinished) : s.Executes c (n + 1) := by
  intro k hk
  rw [positionAt?_eq_some.mpr ⟨unfinished_of_le h (Nat.le_of_lt_succ hk), rfl⟩]; rfl

/-- A run that has ended with some fuel ends with one of its instructions. -/
theorem exists_endsAt_of_ended (h : (s.run c n).1 ≠ .unfinished) :
    ∃ m ≤ n, ∃ error s', s.EndsAt c m error s' := by
  have hex : ∃ m, (s.run c m).1 ≠ .unfinished := ⟨n, h⟩
  cases hm : (s.run c (Nat.find hex)).1 with
  | unfinished => exact absurd hm (Nat.find_spec hex)
  | ended error =>
    refine ⟨Nat.find hex, Nat.find_min' hex h, error, _, run_eq_of_fst hm, fun m hlt => ?_⟩
    exact not_not.mp (Nat.find_min hex hlt)

end Session

/-- **Only `wend` goes back.** Whatever the stack, the context, the sinks and the logger, in a run of
a program that resolved:

* an instruction that is no `wend` leaves the next position behind its own;
* the instructions from one `wend` to the next, that one included, are at most as many as the code
  has;
* a run that executes `w` times a `wend` executes at most `w + 1` times as many instructions as the
  code has;
* if there is no `wend` in the code, the run ends within its length, as long as the sinks take a
  byte or return an error whenever they are given one.

The last condition is not a hypothesis because a write to a sink that does neither is given up here
after as many rounds as `Host.writeBuffer` allows. Such a write might otherwise go on forever
within a single instruction. -/
theorem run_forward {code : List Instruction} {s : Session}
    (hp : Program.resolve code = .ok s.program) (hlow : 0 ≤ s.machine.next) (c : Context) :
    (∀ k pos, s.positionAt? c k = some pos → s.wendAt c k = false →
      (s.run c (k + 1)).2.machine.current = pos ∧ pos < (s.run c (k + 1)).2.machine.next) ∧
    (∀ m n, s.Executes c n → (∀ k, m ≤ k → k + 1 < n → s.wendAt c k = false) →
      n ≤ m + code.length) ∧
    (∀ n, s.Executes c n → n ≤ (s.wendsWithin c n + 1) * code.length) ∧
    ((∀ i ∈ code, i.op ≠ .wend) → ∃ n ≤ code.length, ∃ error s', s.EndsAt c n error s') := by
  have hstretch : ∀ m n, s.Executes c n → (∀ k, m ≤ k → k + 1 < n → s.wendAt c k = false) →
      n ≤ m + code.length := by
    intro m n hn hwend
    rcases Nat.lt_or_ge m n with hmn | hmn
    · obtain ⟨d, rfl⟩ := Nat.exists_eq_add_of_lt hmn
      obtain ⟨pos, hpos⟩ := Option.isSome_iff_exists.mp (hn (m + d) (by omega))
      have hd := Session.position_grows hp hlow hpos fun k hmk hk => hwend k hmk (by omega)
      have hlt := (Session.run_lands hp hpos (Session.position_nonneg hp hlow _ hpos)).1
      omega
    · omega
  refine ⟨?_, hstretch, ?_, ?_⟩
  · intro k pos hpos hwend
    have hnonneg := Session.position_nonneg hp hlow k hpos
    obtain ⟨-, op, hop, hlands⟩ := Session.run_lands hp hpos hnonneg
    have hforward := hlands.forward fun h => by rw [hop.mp h] at hwend; cases hwend
    have hcurrent := hlands.current
    omega
  · intro n hn
    cases n with
    | zero => omega
    | succ n =>
      have hle := Session.executed_le hp hlow hn
      obtain ⟨pos, hpos⟩ := Option.isSome_iff_exists.mp (hn n (by omega))
      obtain ⟨-, op, -, hlands⟩ :=
        Session.run_lands hp hpos (Session.position_nonneg hp hlow _ hpos)
      have hhigh := hlands.high
      rw [Nat.add_mul, Nat.one_mul]
      omega
  · intro hnone
    refine Session.exists_endsAt_of_ended fun h => ?_
    have hle := hstretch 0 (code.length + 1) (.of_unfinished h) fun k _ _ =>
      Session.wendAt_eq_false hp hnone k
    omega

/-- The program of `1 while dup do 1 - wend print`, whose loop is entered once. -/
def Program.oneRound : Program :=
  { code := #[.push 1, { op := .whileMark }, { op := .dup }, { op := .doTest }, .push 1,
      { op := .sub }, { op := .wend }, { op := .print }],
    targets := #[none, none, none, some 6, none, none, some 1, none] }

/-- The program of `1 if print`, whose block is never closed. -/
def Program.onePrint : Program :=
  { code := #[.push 1, { op := .ifTest }, { op := .print }], targets := #[none, none, none] }

theorem resolve_oneRound :
    Program.resolve Program.oneRound.code.toList = .ok Program.oneRound := rfl

theorem resolve_onePrint :
    Program.resolve Program.onePrint.code.toList = .ok Program.onePrint := rfl

theorem run_forward_oneRound :
    (3 < ((Session.inMemory .oneRound []).run .never (9 + 1)).2.machine.next ∧
      (Session.inMemory .oneRound []).wendsWithin .never 11 = 1 ∧
      11 ≤ (1 + 1) * Program.oneRound.code.toList.length) ∧
    ∃ n ≤ 3, ∃ error s, ({ program := .onePrint } : Session).EndsAt .never n error s := by
  refine ⟨?_, ?_⟩
  · have hpos : (Session.inMemory .oneRound []).positionAt? .never 9 = some 3 := by decide +kernel
    have hwend : (Session.inMemory .oneRound []).wendAt .never 9 = false := by decide +kernel
    have hexecutes : (Session.inMemory .oneRound []).Executes .never 11 := by
      unfold Session.Executes; decide +kernel
    have hwends : (Session.inMemory .oneRound []).wendsWithin .never 11 = 1 := by decide +kernel
    have hlow : 0 ≤ (Session.inMemory .oneRound []).machine.next := by decide
    obtain ⟨hahead, -, hcount, -⟩ :=
      run_forward (s := .inMemory .oneRound []) resolve_oneRound hlow .never
    have hle := hcount 11 hexecutes
    rw [hwends] at hle
    exact ⟨(hahead 9 3 hpos hwend).2, hwends, hle⟩
  · -- there is no outlet, so printing crashes
    obtain ⟨-, -, -, hends⟩ :=
      run_forward (s := { program := .onePrint }) resolve_onePrint (by decide) .never
    exact hends (by decide)

end WordStack
