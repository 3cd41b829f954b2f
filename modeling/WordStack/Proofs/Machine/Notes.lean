import WordStack.Proofs.Machine.Execution

/-!
# The notes of an instruction

Which notes an instruction takes can be told from the machine before it and the machine that it
leaves, whatever becomes of the text that it writes: first that it is executed, then that it met an
operand that is no integer, if the count of these rises, and then that it jumps, if it does.

* `Script.Takes`: a script takes some notes and leaves a machine, also when one of its writes fails.
* `Machine.jumps`, `Machine.notes`: whether an instruction jumps, and the notes that belong to it.
* `Machine.step_takes`: the script of an instruction takes these.
-/
namespace WordStack

namespace Script

/-- The script takes just these notes, whatever its writes come to, and the machine that it leaves
satisfies `P`: that of its end, or that of a write that fails. There are writes only if `prints`
holds, and no faults. -/
def Takes (prints : Prop) (P : Machine → Prop) : List Note → Script → Prop
  | taken, .done m | taken, .halt _ m => taken = [] ∧ P m
  | _, .fault .. => False
  | taken, .note n _ rest => ∃ more, taken = n :: more ∧ rest.Takes prints P more
  | taken, .write _ m rest => prints ∧ taken = [] ∧ P m ∧ rest.Takes prints P []

theorem Takes.mono {prints : Prop} {P Q : Machine → Prop} {taken : List Note} {script : Script}
    (h : script.Takes prints P taken) (hPQ : ∀ m, P m → Q m) : script.Takes prints Q taken := by
  induction script generalizing taken with
  | done m | halt _ m => exact ⟨h.1, hPQ m h.2⟩
  | fault _ m => exact h
  | note n m rest ih =>
    obtain ⟨more, rfl, hrest⟩ := h
    exact ⟨more, rfl, ih hrest⟩
  | write text m rest ih =>
    obtain ⟨hprints, rfl, hm, hrest⟩ := h
    exact ⟨hprints, rfl, hPQ m hm, ih hrest⟩

end Script

namespace Machine

/-- The first operand, from the top, that is no integer. -/
def misfit (stack : List Value) : Value :=
  match stack with
  | [] => .text []
  | .text t :: _ => .text t
  | .int _ :: rest => misfit rest

/-- Whether an operation jumps: it has a target, and is a `wend`, or an `if` or `do` whose condition
is no positive integer. A strict machine halts at a condition that is no integer. -/
def jumps (p : Program) (strict : Bool) (position : Int) (op : Op) (stack : List Value) : Bool :=
  (p.target? position).isSome &&
    match op, stack with
    | .wend, _ => true
    | .ifTest, .int n :: _ | .doTest, .int n :: _ => decide (n ≤ 0)
    | .ifTest, .text _ :: _ | .doTest, .text _ :: _ => !strict
    | _, _ => false

/-- The note that an operation met an operand that is no integer, by the counts before and behind. -/
def counted (op : Op) (m m' : Machine) : List Note :=
  if m.mismatches < m'.mismatches then [.mismatch op (misfit m.stack)] else []

/-- The notes of an operation that is carried out by the machine `m` and leaves `m'`. -/
def notesOf (p : Program) (strict : Bool) (op : Op) (m m' : Machine) : List Note :=
  counted op m m' ++ if jumps p strict m.current op m.stack then [.jump m.current m'.next] else []

/-- The notes of the next instruction of the machine `m`, which leaves `m'`. -/
def notes (p : Program) (strict : Bool) (m m' : Machine) : List Note :=
  match p.fetch? m.next with
  | none => []
  | some i =>
    .exec m.next i m.stack ::
      notesOf p strict i.op { m with current := m.next, next := m.next + 1 } m'

variable {p : Program} {strict : Bool} {op : Op} {m m' : Machine}

/-! ## Operations -/

/-- Behind the notes `before` the script takes the other notes of an operation of `m`. -/
def Follows (p : Program) (strict : Bool) (op : Op) (m : Machine) (before : List Note)
    (script : Script) : Prop :=
  ∃ taken, script.Takes (op = .print) (fun m' => notesOf p strict op m m' = before ++ taken) taken

theorem counted_of_eq (h : m'.mismatches = m.mismatches) : counted op m m' = [] := by
  simp [counted, h]

theorem follows_done (hjump : jumps p strict m.current op m.stack = false) (m' : Machine) :
    Follows p strict op m (counted op m m') (.done m') :=
  ⟨[], rfl, by simp [notesOf, hjump]⟩

theorem follows_halt (hjump : jumps p strict m.current op m.stack = false) (m' : Machine)
    (e : Error) : Follows p strict op m (counted op m m') (.halt e m') :=
  ⟨[], rfl, by simp [notesOf, hjump]⟩

/-- A machine that met an operand that is no integer goes on, or halts if it is strict. -/
theorem mismatch_follows {v : Value} {k : Machine → Script} (hcount : m'.mismatches = m.mismatches)
    (hv : misfit m.stack = v)
    (hstrict : strict = true → jumps p strict m.current op m.stack = false)
    (hk : strict = false → ∀ m₁ : Machine, m₁ = { m' with mismatches := m'.mismatches + 1 } →
      Follows p strict op m (counted op m m₁) (k m₁)) :
    Follows p strict op m [] (m'.mismatch strict op v k) := by
  have hnote : ∀ m₁ : Machine, m₁ = { m' with mismatches := m'.mismatches + 1 } →
      counted op m m₁ = [.mismatch op v] := by
    rintro m₁ rfl
    simp [counted, hcount, hv]
  unfold mismatch
  cases strict with
  | true =>
    obtain ⟨taken, htaken⟩ := follows_halt (hstrict rfl)
      { m' with mismatches := m'.mismatches + 1 } (.typeMismatch op v)
    rw [hnote _ rfl] at htaken
    exact ⟨.mismatch op v :: taken, taken, rfl, htaken⟩
  | false =>
    obtain ⟨taken, htaken⟩ := hk rfl _ rfl
    rw [hnote _ rfl] at htaken
    exact ⟨.mismatch op v :: taken, taken, rfl, htaken⟩

/-- A machine that jumps if there is a target, and halts if there is none. -/
theorem target_follows (go : Int → Int) (hcurrent : m'.current = m.current)
    (hjump : jumps p strict m.current op m.stack = (p.target? m.current).isSome) :
    Follows p strict op m (counted op m m') (m'.target p fun t => m'.jump (go t)) := by
  unfold target jump
  rw [hcurrent]
  cases ht : p.target? m.current with
  | none =>
    rw [ht] at hjump
    exact follows_halt hjump m' _
  | some t =>
    refine ⟨[.jump m.current (go t)], [], rfl, rfl, ?_⟩
    rw [ht] at hjump
    simp [notesOf, counted, hjump]

theorem binary_follows (hjump : jumps p strict m.current op m.stack = false)
    (f : Int32 → Int32 → Except Error Int32) : Follows p strict op m [] (m.binary strict op f) := by
  have hnone : ∀ m' : Machine, m'.mismatches = m.mismatches → counted op m m' = [] :=
    fun _ hcount => counted_of_eq hcount
  have hmismatch : ∀ {m' : Machine} {v : Value}, m'.mismatches = m.mismatches →
      misfit m.stack = v → Follows p strict op m [] (m'.mismatch strict op v .done) :=
    fun hcount hv => mismatch_follows hcount hv (fun _ => hjump) fun _ m₁ _ => follows_done hjump m₁
  unfold binary pop
  match hstack : m.stack with
  | [] => rw [← hnone _ rfl]; exact follows_halt hjump _ _
  | [v] => rw [← hnone _ rfl]; exact follows_halt hjump _ _
  | .int r :: .int l :: rest =>
    dsimp only
    split
    · rw [← hnone _ rfl]; exact follows_done hjump _
    · rw [← hnone _ rfl]; exact follows_halt hjump _ _
  | .text t :: left :: rest => exact hmismatch rfl (by rw [hstack]; rfl)
  | .int r :: .text t :: rest => exact hmismatch rfl (by rw [hstack]; rfl)

/-- A test goes on if its condition holds, and else jumps. -/
theorem truth_follows (hop : op = .ifTest ∨ op = .doTest) (go : Int → Int) :
    Follows p strict op m [] (m.truth strict op fun holds m =>
      if holds then .done m else m.target p fun t => m.jump (go t)) := by
  have hnone : ∀ m' : Machine, m'.mismatches = m.mismatches → counted op m m' = [] :=
    fun _ hcount => counted_of_eq hcount
  unfold truth pop
  match hstack : m.stack with
  | [] =>
    have hjump : jumps p strict m.current op m.stack = false := by
      rcases hop with rfl | rfl <;> simp [jumps, hstack]
    rw [← hnone _ rfl]
    exact follows_halt hjump _ _
  | .int n :: rest =>
    have hjump : jumps p strict m.current op m.stack =
        ((p.target? m.current).isSome && decide (n ≤ 0)) := by
      rcases hop with rfl | rfl <;> simp [jumps, hstack]
    dsimp only
    rw [← hnone { m with stack := rest } rfl]
    by_cases hn : 0 < n
    · have hle : ¬ n ≤ 0 := Int32.not_le.mpr hn
      simp only [hn, decide_true, if_true]
      exact follows_done (by simp [hjump, hle]) _
    · have hle : n ≤ 0 := Int32.not_lt.mp hn
      simp only [hn, decide_false, Bool.false_eq_true, if_false]
      exact target_follows go rfl (by simp [hjump, hle])
  | .text t :: rest =>
    have hjump : jumps p strict m.current op m.stack =
        ((p.target? m.current).isSome && !strict) := by
      rcases hop with rfl | rfl <;> simp [jumps, hstack]
    refine mismatch_follows rfl (by rw [hstack]; rfl) (fun h => ?_) ?_
    · rw [hjump, h]; simp
    · rintro h m₁ rfl
      refine target_follows go rfl ?_
      rw [hjump, h]; simp

/-- Every known operation takes the notes that belong to it. -/
theorem perform_follows (hknown : op ∈ Op.known) (hfetch : (p.fetch? m.current).isSome = true) :
    Follows p strict op m [] (m.perform p strict op) := by
  have hnone : ∀ m' : Machine, m'.mismatches = m.mismatches → counted op m m' = [] :=
    fun _ hcount => counted_of_eq hcount
  cases op with
  | ifTest => exact truth_follows (.inl rfl) id
  | doTest => exact truth_follows (.inr rfl) p.past
  | wend =>
    rw [← hnone m rfl]
    exact target_follows id rfl (by simp [jumps])
  | push =>
    obtain ⟨i, hi⟩ := Option.isSome_iff_exists.mp hfetch
    simp only [perform, hi]
    rw [← hnone _ rfl]
    exact follows_done (by simp [jumps]) _
  | dup =>
    rw [perform, pop]
    split
    · rw [← hnone _ rfl]; exact follows_halt (by simp [jumps]) _ _
    · rw [← hnone _ rfl]; exact follows_done (by simp [jumps]) _
  | print =>
    rw [perform, pop]
    split
    · rw [← hnone _ rfl]; exact follows_halt (by simp [jumps]) _ _
    · have hprint : ∀ m' : Machine, m'.mismatches = m.mismatches →
          notesOf p strict .print m m' = [] := fun m' hcount => by
        simp [notesOf, hnone m' hcount, jumps]
      exact ⟨[], rfl, rfl, hprint _ rfl, rfl, rfl, hprint _ rfl, rfl, hprint _ rfl⟩
  | whileMark | endMark | word =>
    rw [← hnone m rfl]
    exact follows_done (by simp [jumps]) _
  | unknown past => simp [Op.known] at hknown
  | add | sub | mul | div | mod | eq | lt | mt =>
    rw [perform]
    exact binary_follows (by simp [jumps]) _

/-- The script of a known instruction takes the notes that belong to it. -/
theorem step_takes {i : Instruction} (hi : p.fetch? m.next = some i) (hknown : i.op ∈ Op.known) :
    ∃ taken, (m.step p strict).Takes (i.op = .print) (fun m' => m.notes p strict m' = taken)
      taken := by
  have hfollows : Follows p strict i.op { m with current := m.next, next := m.next + 1 } [] _ :=
    perform_follows hknown (by simp [hi])
  obtain ⟨taken, htaken⟩ := hfollows
  unfold step notes
  simp only [hi]
  exact ⟨.exec m.next i m.stack :: taken, taken, rfl, htaken.mono fun m' h => by rw [h]; rfl⟩

end Machine

end WordStack
