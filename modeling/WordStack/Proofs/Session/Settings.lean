import WordStack.Proofs.Host.Passing
import WordStack.Session.Setting

/-!
# Settings one by one

How settings are grouped does not matter: a new session is one to which the settings of its trees
were applied from left to right.

* `Session.applyEach`: settings applied one by one.
* `SettingTree.flatten_combine`, `Session.applyTree_eq`: trees and their settings.
* `Session.new_eq`: a new session, by its settings.
* `Session.setOutput_ok`, `Session.addTee_ok`: outputs, by what happens to the host.
-/
namespace WordStack

namespace SettingTree

theorem flattenAll_append (a b : List SettingTree) :
    flattenAll (a ++ b) = flattenAll a ++ flattenAll b := by
  induction a with
  | nil => rfl
  | cons t rest ih => rw [List.cons_append, flattenAll, ih, flattenAll, List.append_assoc]

theorem flattenAll_singleton (t : SettingTree) : flattenAll [t] = t.flatten := by
  simp [flattenAll]

theorem flattenAll_spliced (t : SettingTree) : flattenAll t.spliced = t.flatten := by
  cases t with
  | missing => rfl
  | single x => exact flattenAll_singleton _
  | group members => rw [spliced, flatten]

/-- Combining trees changes their groups, but not their settings. -/
theorem flatten_combine (trees : List SettingTree) : (combine trees).flatten = flattenAll trees := by
  have hspliced : flattenAll (trees.flatMap spliced) = flattenAll trees := by
    induction trees with
    | nil => rfl
    | cons t rest ih =>
      rw [List.flatMap_cons, flattenAll_append, flattenAll_spliced, ih, flattenAll]
  rw [← hspliced]
  unfold combine
  split
  · next t ht => rw [ht, flattenAll_singleton]
  · rw [flatten]

end SettingTree

namespace Session

open SettingTree (flattenAll)

/-- Apply settings one by one. -/
def applyEach : List Setting → M Unit
  | [] => return ()
  | x :: rest => do apply x; applyEach rest

theorem applyEach_append (a b : List Setting) :
    applyEach (a ++ b) = (do applyEach a; applyEach b) := by
  induction a with
  | nil => rw [List.nil_append, applyEach, pure_bind]
  | cons x rest ih => rw [List.cons_append, applyEach, ih, applyEach, bind_assoc]

mutual

theorem applyTree_eq (t : SettingTree) : applyTree t = applyEach t.flatten := by
  cases t with
  | missing => rfl
  | single x => rw [applyTree, SettingTree.flatten, applyEach, applyEach, bind_pure_unit]
  | group members => rw [applyTree, SettingTree.flatten, applyTrees_eq members]

theorem applyTrees_eq (trees : List SettingTree) :
    applyTrees trees = applyEach (flattenAll trees) := by
  cases trees with
  | nil => rw [applyTrees, flattenAll, applyEach]
  | cons t rest =>
    rw [applyTrees, flattenAll, applyEach_append, applyTree_eq t, applyTrees_eq rest]

end

theorem new_eq (settings : List SettingTree) (h : Host) :
    new settings h = applyEach (flattenAll settings) (fresh h) := by
  rw [new, applyTree_eq, SettingTree.flatten_combine]

section
variable {s : Session} {i : Nat} {w : Writer} {g g' : Host}

theorem onHost_ok {α : Type} {act : Act Host α} {a : α} (hact : act s.host = .ok a g) :
    onHost act s = .ok a { s with host := g } := by
  simp only [onHost, Act.zoom, hact]

theorem setOutput_eq (hne : s.outlet ≠ []) (i : Nat) :
    setOutput i s = (do
      let _ ← onHost s.outlet.flush
      let w ← onHost (Writer.ofSink i)
      modify fun s => { s with outlet := [w] } : M Unit) s := by
  unfold setOutput
  rw [Act.get_bind]
  cases hout : s.outlet with
  | nil => exact absurd hout hne
  | cons w rest => rfl

/-- The outlet before is flushed and given up, whatever the flush returns. -/
theorem setOutput_ok {e : Option Error} (hne : s.outlet ≠ [])
    (hflush : s.outlet.flush s.host = .ok e g) (hopen : Writer.ofSink i g = .ok w g') :
    setOutput i s = .ok () { s with outlet := [w], host := g' } := by
  have hfirst := onHost_ok hflush
  have hsecond : onHost (Writer.ofSink i) { s with host := g } = .ok w { s with host := g' } :=
    onHost_ok hopen
  rw [setOutput_eq hne, Act.bind_ok hfirst, Act.bind_ok hsecond]
  rfl

theorem addTee_ok (hopen : Writer.ofSink i s.host = .ok w g) :
    addTee i s = .ok () { s with
      outlet := s.outlet ++ [w]
      closers := if g.isClosable i then i :: s.closers else s.closers
      host := g } := by
  rw [← Outlet.join_pair]
  exact Act.bind_ok (onHost_ok hopen)

end

end Session

end WordStack
