import WordStack.Proofs.Host.Fan
import WordStack.Proofs.Host.Silence
import WordStack.Proofs.Session.Outputs
import WordStack.Proofs.Session.Settings

/-!
# Trees of settings, and what closing undoes

Settings may be put together in groups of groups in any way: a new session has been given the
settings of the tree from left to right, behind a first output that drops everything. Of these it
remembers the tees that can be closed, and closing a session closes the sinks of just these, the last
one first.

* `SettingTree.combined`, `SettingTree.flatten_combined`: groups of groups, and their settings.
* `Host.closed`, `Host.Unclosed`: the sinks that were closed; no sink was.
* `Session.applyEach_closers`: what a session remembers to close.
* `Session.close_eq`: what closing does.
* `Session.new_combined_close`: all of it, for a new session.
-/
namespace WordStack

open Act (Relates)

/-! ## Groups of groups -/

namespace SettingTree

mutual

/-- A tree in which every group is combined from its members. -/
def combined : SettingTree → SettingTree
  | missing => missing
  | single x => single x
  | group members => combine (combinedAll members)

def combinedAll : List SettingTree → List SettingTree
  | [] => []
  | t :: rest => t.combined :: combinedAll rest

end

mutual

theorem flatten_combined (t : SettingTree) : t.combined.flatten = t.flatten := by
  cases t with
  | missing => rfl
  | single x => rfl
  | group members => rw [combined, flatten_combine, flattenAll_combinedAll members, flatten]

theorem flattenAll_combinedAll (trees : List SettingTree) :
    flattenAll (combinedAll trees) = flattenAll trees := by
  cases trees with
  | nil => rfl
  | cons t rest =>
    rw [combinedAll, flattenAll, flatten_combined t, flattenAll_combinedAll rest, flattenAll]

end

theorem combinedAll_eq (trees : List SettingTree) : combinedAll trees = trees.map combined := by
  induction trees with
  | nil => rfl
  | cons t rest ih => rw [combinedAll, ih, List.map_cons]

end SettingTree

/-! ## Sinks that are closed -/

/-- The sink that an event closes. -/
def Event.closed? : Event → Option Nat
  | .close i => some i
  | .log _ | .write .. | .flush _ => none

namespace Host

/-- The sinks that were closed, in order. -/
def closed (h : Host) : List Nat := h.events.reverse.filterMap Event.closed?

/-- No sink was closed, and the same ones can be. -/
structure Unclosed (h h' : Host) : Prop where
  closed : h'.closed = h.closed
  closable : h'.isClosable = h.isClosable

variable {h h' h'' : Host}

theorem Unclosed.refl (h : Host) : h.Unclosed h := ⟨rfl, rfl⟩

theorem Unclosed.trans (a : h.Unclosed h') (b : h'.Unclosed h'') : h.Unclosed h'' :=
  ⟨b.closed.trans a.closed, b.closable.trans a.closable⟩

instance : IsTrans Host Unclosed := ⟨fun _ _ _ => Unclosed.trans⟩

theorem isClosable_called (h : Host) (i taken : Nat) (failed : Bool) :
    (h.called i taken failed).isClosable = h.isClosable := by
  funext j
  simp only [isClosable, called, Array.getElem?_modify]
  split
  · cases h.sinks[j]? <;> rfl
  · rfl

theorem closed_tell (h : Host) (e : Event) : (h.tell e).closed = h.closed ++ e.closed?.toList := by
  cases he : e.closed? <;> simp [closed, tell, he]

theorem unclosed_keptByOutput : KeptByOutput Unclosed where
  refl := Unclosed.refl
  called h i taken failed := ⟨rfl, h.isClosable_called i taken failed⟩
  write h i data := ⟨by simp [closed_tell, Event.closed?], rfl⟩
  flush h i := ⟨by simp [closed_tell, Event.closed?], rfl⟩
  buffers _ _ := ⟨rfl, rfl⟩

/-- The sinks of tees that can be closed, from left to right. -/
def closableTees (h : Host) (xs : List Setting) : List Nat :=
  xs.filterMap fun
    | .tee i => if h.isClosable i then some i else none
    | _ => none

theorem mem_closableTees {xs : List Setting} {i : Nat} (hi : i ∈ h.closableTees xs) :
    .tee i ∈ xs ∧ h.isClosable i = true := by
  obtain ⟨x, hx, hxi⟩ := List.mem_filterMap.mp hi
  cases x with
  | tee j =>
    simp only [Option.ite_none_right_eq_some, Option.some.injEq] at hxi
    obtain ⟨hclosable, rfl⟩ := hxi
    exact ⟨hx, hclosable⟩
  | _ => cases hxi

theorem Unclosed.closableTees (hu : h.Unclosed h') (xs : List Setting) :
    h'.closableTees xs = h.closableTees xs := by
  rw [Host.closableTees, hu.closable, Host.closableTees]

theorem closed_of_events {is : List Nat} (hevents : h'.events = (is.map .close).reverse ++ h.events) :
    h'.closed = h.closed ++ is := by
  have his : (is.map Event.close).filterMap Event.closed? = is := by
    rw [List.filterMap_map]
    exact List.filterMap_some
  rw [closed, hevents, List.reverse_append, List.reverse_reverse, List.filterMap_append, his, closed]

/-- A sink that can be closed is closed, whatever it answers. -/
theorem closeSink_of_closable {i : Nat} (hi : h.isClosable i = true) :
    ∃ e, closeSink i h = .ok e ((h.called i 0 false).tell (.close i)) := by
  unfold closeSink
  cases hs : h.sinks[i]? with
  | none => simp [isClosable, hs] at hi
  | some s => exact ⟨_, rfl⟩

/-- Sinks that can be closed are closed one after the other, past failures. -/
theorem exists_mapM_closeSink {is : List Nat} (his : ∀ i ∈ is, h.isClosable i = true) :
    ∃ es h', is.mapM closeSink h = .ok es h' ∧
      h'.events = (is.map .close).reverse ++ h.events := by
  induction is generalizing h with
  | nil => exact ⟨[], h, rfl, rfl⟩
  | cons i is ih =>
    obtain ⟨hi, hrest⟩ := List.forall_mem_cons.mp his
    obtain ⟨e, hclose⟩ := closeSink_of_closable hi
    have hclosable : ((h.called i 0 false).tell (.close i)).isClosable = h.isClosable :=
      h.isClosable_called i 0 false
    obtain ⟨es, h', hmapM, hevents⟩ := ih (fun j hj => by rw [hclosable]; exact hrest j hj)
    refine ⟨e :: es, h', ?_, ?_⟩
    · rw [List.mapM_cons, Act.bind_ok hclose, Act.bind_ok hmapM]
      rfl
    · rw [hevents]
      simp [tell, called]

end Host

namespace Session

variable {s s' : Session} {h : Host}

/-! ## What a session remembers to close -/

/-- No sink was closed, and the session has the same ones to close. -/
structure Unclosed (s s' : Session) : Prop where
  host : s.host.Unclosed s'.host
  closers : s'.closers = s.closers

theorem Unclosed.refl (s : Session) : s.Unclosed s := ⟨Host.Unclosed.refl _, rfl⟩

instance : IsTrans Session Unclosed :=
  ⟨fun _ _ _ a b => ⟨a.host.trans b.host, b.closers.trans a.closers⟩⟩

theorem onHost_unclosed {α : Type} {act : Act Host α} (hact : Relates Host.Unclosed act) :
    Relates Unclosed (onHost act) := by
  intro s
  have hhost := hact s.host
  unfold onHost Act.zoom
  cases hrun : act s.host <;> rw [hrun] at hhost <;> exact ⟨hhost, rfl⟩

theorem setOutput_unclosed (i : Nat) : Relates Unclosed (setOutput i) := by
  have hget : Relates Unclosed (get : M Session) := Unclosed.refl
  refine hget.bind fun s => ?_
  have hopen : Relates Unclosed (do
      let w ← onHost (Writer.ofSink i)
      modify fun s => { s with outlet := [w] } : M Unit) :=
    (onHost_unclosed (Host.unclosed_keptByOutput.writer_ofSink i)).bind
      fun _ _ => ⟨Host.Unclosed.refl _, rfl⟩
  split
  · exact hopen
  · exact (onHost_unclosed (Host.unclosed_keptByOutput.outlet_flush _)).bind fun _ => hopen

theorem apply_closers {x : Setting} (happly : apply x s = .ok () s') :
    s.host.Unclosed s'.host ∧ s'.closers = (s.host.closableTees [x]).reverse ++ s.closers := by
  have hkeeps : s.Unclosed s' → s.host.closableTees [x] = [] →
      s.host.Unclosed s'.host ∧ s'.closers = (s.host.closableTees [x]).reverse ++ s.closers := by
    intro hu hnil
    rw [hnil]
    exact ⟨hu.host, hu.closers⟩
  cases x with
  | output i => exact hkeeps ((setOutput_unclosed i).ok happly) rfl
  | tee i =>
    obtain ⟨w, g, hopen, -⟩ := Host.ofSink_fresh s.host i
    have hu := (Host.unclosed_keptByOutput.writer_ofSink i).ok hopen
    cases happly.symm.trans (addTee_ok hopen)
    refine ⟨hu, ?_⟩
    show (if g.isClosable i then i :: s.closers else s.closers) = _
    rw [hu.closable]
    cases hi : s.host.isClosable i <;> simp [Host.closableTees, hi]
  | program p => cases happly; exact hkeeps ⟨Host.Unclosed.refl _, rfl⟩ rfl
  | logger l => cases happly; exact hkeeps ⟨Host.Unclosed.refl _, rfl⟩ rfl
  | strict => cases happly; exact hkeeps ⟨Host.Unclosed.refl _, rfl⟩ rfl
  | listing coloured => cases happly; exact hkeeps ⟨Host.Unclosed.refl _, rfl⟩ rfl
  | values vs => cases happly; exact hkeeps ⟨Host.Unclosed.refl _, rfl⟩ rfl
  | position p => cases happly; exact hkeeps ⟨Host.Unclosed.refl _, rfl⟩ rfl

theorem applyEach_closers {xs : List Setting} (happly : applyEach xs s = .ok () s') :
    s.host.Unclosed s'.host ∧ s'.closers = (s.host.closableTees xs).reverse ++ s.closers := by
  induction xs generalizing s with
  | nil =>
    cases happly
    exact ⟨Host.Unclosed.refl _, rfl⟩
  | cons x rest ih =>
    obtain ⟨⟨⟩, t, hx, hrest⟩ := Act.bind_eq_ok.mp happly
    obtain ⟨hu, hclosers⟩ := apply_closers hx
    obtain ⟨hu', hclosers'⟩ := ih hrest
    refine ⟨hu.trans hu', ?_⟩
    have hsplit : s.host.closableTees (x :: rest) =
        s.host.closableTees [x] ++ s.host.closableTees rest := by
      rw [← List.singleton_append, Host.closableTees, List.filterMap_append]
      rfl
    rw [hclosers', hclosers, hu.closableTees, hsplit, List.reverse_append, List.append_assoc]

/-! ## Closing -/

/-- Closing asks each sink once, and what is closed is not closed again. -/
theorem close_eq {es : List (Option Error)} {g : Host}
    (hclose : s.closers.mapM Host.closeSink s.host = .ok es g) :
    close s = .ok (es.findSome? id) { s with closers := [], host := g } := by
  have hattempt : attemptAll Host.closeSink s.closers s.host = .ok (es.findSome? id) g := by
    rw [attemptAll_eq, map_eq_pure_bind, Act.bind_ok hclose]
    rfl
  exact Act.bind_ok (onHost_ok hattempt)

end Session

/-- A first output that drops everything stands for the one of a new session. -/
theorem Session.apply_output_bare {h : Host} {i : Nat}
    (hi : ∀ s, h.sinks[i]? = some s → s.kind = .discard) :
    apply (.output i) (bare h) = .ok () (fresh h) := by
  have hopen : Writer.ofSink i h = .ok .discard h := by
    unfold Writer.ofSink
    rw [Act.get_bind]
    cases hs : h.sinks[i]? with
    | none => rfl
    | some s =>
      dsimp only
      rw [hi s hs]
      rfl
  show setOutput i (bare h) = _
  unfold setOutput
  rw [Act.get_bind]
  exact Act.bind_ok (onHost_ok (s := bare h) hopen)

open SettingTree (flattenAll combined) in
/-- **A tree of settings is its list, and closing undoes its tees.** Put settings together in groups of
groups in any way. A new session with them is what the settings make of a bare one from left to right,
behind a first output that drops everything; this includes all that happens on the host, and an abort
on the way. Closing it then closes the sinks of the tees that can be closed, once for each, the last
one first and past failures, and nothing else; it returns the first error on the way. A second time it
does nothing. -/
theorem Session.new_combined_close (trees : List SettingTree) (h : Host) :
    (∀ i, (∀ s, h.sinks[i]? = some s → s.kind = .discard) →
      new (trees.map combined) h = applyEach (.output i :: flattenAll trees) (bare h)) ∧
    ∀ s, new (trees.map combined) h = .ok () s → ∃ es g,
      (h.closableTees (flattenAll trees)).reverse.mapM Host.closeSink s.host = .ok es g ∧
      close s = .ok (es.findSome? id) { s with closers := [], host := g } ∧
      g.events = (h.closableTees (flattenAll trees)).map .close ++ s.host.events ∧
      g.closed = h.closed ++ (h.closableTees (flattenAll trees)).reverse ∧
      (∀ i, .tee i ∉ flattenAll trees → g.closed.count i = h.closed.count i) ∧
      close { s with closers := [], host := g } = .ok none { s with closers := [], host := g } := by
  have hnew : new (trees.map combined) h = applyEach (flattenAll trees) (fresh h) := by
    rw [new_eq, ← SettingTree.combinedAll_eq, SettingTree.flattenAll_combinedAll]
  refine ⟨fun i hi => ?_, fun s hs => ?_⟩
  · rw [hnew, applyEach, Act.bind_ok (apply_output_bare hi)]
  · obtain ⟨hu, hclosers⟩ := applyEach_closers (hnew.symm.trans hs)
    have hlist : s.closers = (h.closableTees (flattenAll trees)).reverse :=
      hclosers.trans (List.append_nil _)
    have hclosable : ∀ i ∈ s.closers, s.host.isClosable i = true := by
      intro i hi
      rw [hlist, List.mem_reverse] at hi
      rw [hu.closable]
      exact (Host.mem_closableTees hi).2
    obtain ⟨es, g, hmapM, hevents⟩ := Host.exists_mapM_closeSink hclosable
    have hclosed : g.closed = h.closed ++ s.closers := by
      rw [← show s.host.closed = h.closed from hu.closed, Host.closed_of_events hevents]
    refine ⟨es, g, hlist ▸ hmapM, close_eq hmapM, ?_, hlist ▸ hclosed, fun i hi => ?_, rfl⟩
    · rw [hevents, hlist, ← List.map_reverse, List.reverse_reverse]
    · have hcount : s.closers.count i = 0 := by
        rw [hlist, List.count_reverse, List.count_eq_zero]
        exact fun hmem => hi (Host.mem_closableTees hmem).1
      rw [hclosed, List.count_append, hcount, Nat.add_zero]

/-- A raw sink and one in memory, which fail to close, one that closes well, and one that cannot be
closed. -/
def Host.closableSinks : Host where
  sinks := #[
    { closable := true, policy := { close := fun _ => some (.external (bytes "late")) } },
    { kind := .memory, closable := true
      policy := { close := fun _ => some (.external (bytes "stuck")) } },
    { kind := .flushing, closable := true },
    { kind := .memory }]

/-- Tees within groups, one of them twice and one that is soon detached; the third sink is only an
output. -/
def SettingTree.teesInGroups : List SettingTree :=
  [.group [.missing, .group [.single (.tee 0)]], .single (.output 2),
    .group [.single (.tee 1), .group [.single .strict, .single (.tee 3), .single (.tee 0)]]]

theorem Session.new_combined_close_teesInGroups : ∃ s s',
    new (SettingTree.teesInGroups.map .combined) .closableSinks = .ok () s ∧
    close s = .ok (some (.external (bytes "late"))) s' ∧ s'.host.closed = [0, 1, 0] ∧
    close s' = .ok none s' := by
  obtain ⟨s, es, g, hs, hasked, hes⟩ : ∃ s es g,
      new (SettingTree.teesInGroups.map .combined) .closableSinks = .ok () s ∧
      [0, 1, 0].mapM Host.closeSink s.host = .ok es g ∧
      es.findSome? id = some (.external (bytes "late")) := ⟨_, _, _, rfl, rfl, rfl⟩
  obtain ⟨-, hclose⟩ := new_combined_close SettingTree.teesInGroups .closableSinks
  obtain ⟨es', g', hasked', hfirst, -, hclosed, -, hsecond⟩ := hclose s hs
  cases hasked.symm.trans hasked'
  exact ⟨s, _, hs, hes ▸ hfirst, hclosed, hsecond⟩

end WordStack
