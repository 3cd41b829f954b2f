import Mathlib.Data.List.Nodup
import WordStack.Proofs.Host.Reliable
import WordStack.Proofs.Session.Outputs
import WordStack.Proofs.Session.Reach
import WordStack.Proofs.Session.Settings

/-!
# Changing the output loses and repeats nothing

A session that is not running is given settings and writes lines in any order. An output takes the
place of all sinks that were attached before, and a tee is attached beside them; a sink may come and
go several times, and a raw one gets a new buffer each time.

* `Rewiring`: one step. `Wiring`: which sinks are attached after some steps, and the text of the lines
  that were written while each sink was attached.
* `Wired`: every sink has received its text, up to what waits in the one buffer in front of it, and
  nothing waits anywhere else.
* `Wired.writeText_host`, `Wired.flush`, `Wired.attach`: what a text, a flush and a new writer do.
* `Session.WiredAs.rewire`, `Session.WiredAs.rewireAll`: so every step keeps a session wired, and so do
  all steps of a sequence.
* `Session.WiredAs.halt`: a halt leaves nothing waiting.
* `rewired_of_new`: so it is for every new session.
-/
namespace WordStack

/-- A step of a session that is not running. -/
inductive Rewiring where
  | setting (x : Setting)
  | line (text : Bytes)

namespace Session

/-- Apply a setting or write a line. -/
def rewire : Rewiring → M Unit
  | .setting x => apply x
  | .line text => writeLine text

/-- Take steps one by one. -/
def rewireAll : List Rewiring → M Unit
  | [] => return ()
  | step :: rest => do rewire step; rewireAll rest

end Session

/-- The sinks that are attached, and for each sink the text that was written while it was. -/
structure Wiring where
  attached : List Nat := []
  text : Nat → Bytes := fun _ => []

namespace Wiring

/-- What a setting attaches. -/
def attach (u : Wiring) : Setting → Wiring
  | .output i => { u with attached := [i] }
  | .tee i => { u with attached := u.attached ++ [i] }
  | _ => u

/-- A text goes to all sinks that are attached. -/
def write (u : Wiring) (text : Bytes) : Wiring :=
  { u with text := fun i => if i ∈ u.attached then u.text i ++ text else u.text i }

def after (u : Wiring) : Rewiring → Wiring
  | .setting x => u.attach x
  | .line text => u.write (text ++ bytes "\n")

def afterAll (u : Wiring) : List Rewiring → Wiring
  | [] => u
  | step :: rest => (u.after step).afterAll rest

/-- On the way no sink is attached twice at the same time. -/
def Apart (u : Wiring) : List Rewiring → Prop
  | [] => u.attached.Nodup
  | step :: rest => u.attached.Nodup ∧ (u.after step).Apart rest

instance decidableApart : (u : Wiring) → (steps : List Rewiring) → Decidable (u.Apart steps)
  | u, [] => inferInstanceAs (Decidable u.attached.Nodup)
  | u, step :: rest =>
    have := decidableApart (u.after step) rest
    inferInstanceAs (Decidable (u.attached.Nodup ∧ (u.after step).Apart rest))

theorem Apart.nodup {u : Wiring} {steps : List Rewiring} (h : u.Apart steps) : u.attached.Nodup := by
  cases steps with
  | nil => exact h
  | cons step rest => exact h.1

theorem text_write_of_mem {u : Wiring} {i : Nat} (hi : i ∈ u.attached) (text : Bytes) :
    (u.write text).text i = u.text i ++ text := if_pos hi

theorem text_write_of_not_mem {u : Wiring} {i : Nat} (hi : i ∉ u.attached) (text : Bytes) :
    (u.write text).text i = u.text i := if_neg hi

theorem write_write (u : Wiring) (a b : Bytes) : (u.write a).write b = u.write (a ++ b) := by
  simp only [write, mk.injEq, true_and]
  funext i
  split <;> simp

theorem afterAll_append (u : Wiring) (a b : List Rewiring) :
    u.afterAll (a ++ b) = (u.afterAll a).afterAll b := by
  induction a generalizing u with
  | nil => rfl
  | cons step rest ih => exact ih (u.after step)

theorem Apart.append {u : Wiring} {a b : List Rewiring} (h : u.Apart (a ++ b)) :
    u.Apart a ∧ (u.afterAll a).Apart b := by
  induction a generalizing u with
  | nil => exact ⟨Apart.nodup h, h⟩
  | cons step rest ih =>
    obtain ⟨hfront, hrest⟩ := ih h.2
    exact ⟨⟨h.1, hfront⟩, hrest⟩

theorem Apart.nodup_afterAll {u : Wiring} {steps : List Rewiring} (h : u.Apart steps) :
    (u.afterAll steps).attached.Nodup := by
  induction steps generalizing u with
  | nil => exact h
  | cons step rest ih => exact ih h.2

end Wiring

/-- There are as many buffers as before. -/
theorem Host.Resembles.lt_size {h h' : Host} (r : h.Resembles h') {b : Nat}
    (hb : b < h.buffers.size) : b < h'.buffers.size := by
  have hbehind : h'.behind? b = some h.buffers[b].sink := by
    rw [r.sinks, behind?, Array.getElem?_eq_getElem hb]; rfl
  refine Nat.lt_of_not_le fun hle => ?_
  rw [behind?, Array.getElem?_eq_none hle] at hbehind
  cases hbehind

/-- Every sink takes all that it is given, and returns from a flush. -/
structure Host.Accepting (h : Host) : Prop where
  accepts : ∀ i, h.Accepts i
  returns : ∀ i p, h.policy? i = some p → ∀ past, ∃ e, p.flush past = .done e

/-- The outlet `ws` on the host `g` is wired as `u` says, since the host was `h`. -/
structure Wired (h : Host) (u : Wiring) (ws : Outlet) (g : Host) : Prop where
  kinds : g.kind? = h.kind?
  policies : g.policy? = h.policy?
  sinks : ws.filterMap (·.sink? g) = u.attached.filterMap h.slot?
  failures : ∀ w ∈ ws, w.failure? g = none
  buffers : ∀ b, .buffered b ∈ ws → b < g.buffers.size
  given : ∀ w ∈ ws, ∀ i, w.sink? g = some i →
    g.received i ++ w.held g = h.received i ++ u.text i
  detached : ∀ i, i ∉ u.attached → h.Records i → g.received i = h.received i ++ u.text i
  idle : ∀ b, h.buffers.size ≤ b → .buffered b ∉ ws → g.held b = []

namespace Wired

variable {h g g' : Host} {u : Wiring} {ws : Outlet} {i : Nat} {w : Writer}

/-- A new session has nothing attached. -/
theorem fresh (h : Host) : Wired h {} [.discard] h := by
  refine ⟨rfl, rfl, rfl, ?_, ?_, ?_, fun i _ _ => (List.append_nil _).symm, ?_⟩
  · intro w hw
    rw [List.mem_singleton.mp hw]; rfl
  · intro b hb
    simp at hb
  · intro w hw i hi
    rw [List.mem_singleton.mp hw] at hi
    cases hi
  · intro b hb _
    simp [Host.held, Array.getElem?_eq_none hb]

section
variable (hw : Wired h u ws g)

include hw

theorem slot? : g.slot? = h.slot? := funext fun i => by rw [Host.slot?, Host.slot?, hw.kinds]

theorem records : g.Records i ↔ h.Records i := by rw [Host.Records, Host.Records, hw.kinds]

theorem accepting (ha : h.Accepting) : g.Accepting := by
  refine ⟨fun i => ?_, ?_⟩
  · rw [Host.Accepts, hw.policies]; exact ha.accepts i
  · rw [hw.policies]; exact ha.returns

/-- The sink of a writer is attached, and keeps what it takes. -/
theorem mem_attached (hmem : w ∈ ws) (hi : w.sink? g = some i) : i ∈ u.attached ∧ h.Records i := by
  have hsink : i ∈ ws.filterMap (·.sink? g) := List.mem_filterMap.mpr ⟨w, hmem, hi⟩
  rw [hw.sinks, List.mem_filterMap] at hsink
  obtain ⟨j, hj, hslot⟩ := hsink
  obtain ⟨rfl, hrec⟩ := Host.slot?_eq_some.mp hslot
  exact ⟨hj, hrec⟩

theorem not_reached (hi : i ∉ u.attached) : ¬ (ws.reach g).sinks i := by
  intro ⟨w, hmem, hsink⟩
  exact hi (hw.mem_attached hmem hsink).1

/-- While a sink that keeps what it takes is attached, it has a writer. -/
theorem exists_writer (hi : i ∈ u.attached) (hrec : h.Records i) :
    ∃ w ∈ ws, w.sink? g = some i := by
  have hsink : i ∈ u.attached.filterMap h.slot? :=
    List.mem_filterMap.mpr ⟨i, hi, Host.slot?_eq_some.mpr ⟨rfl, hrec⟩⟩
  rw [← hw.sinks] at hsink
  exact List.mem_filterMap.mp hsink

/-- Sinks that are attached once have one writer. -/
theorem feeds (hu : u.attached.Nodup) (hmem : w ∈ ws) (hi : w.sink? g = some i) :
    Outlet.Feeds g ws w i := by
  refine ⟨hmem, hi, hw.records.mpr (hw.mem_attached hmem hi).2, ?_⟩
  have hnodup : (ws.filterMap (·.sink? g)).Nodup := by
    rw [hw.sinks]
    refine List.Nodup.filterMap (fun a b c ha hb => ?_) hu
    rw [(Host.slot?_eq_some.mp ha).1, (Host.slot?_eq_some.mp hb).1]
  have hcount : (ws.map (·.sink? g)).count (some i) = (ws.filterMap (·.sink? g)).count i := by
    rw [List.count_filterMap, List.count_eq_countP, List.countP_map]; rfl
  rw [hcount]
  exact List.count_eq_one_of_mem hnodup (List.mem_filterMap.mpr ⟨w, hmem, hi⟩)

end

/-! ## Writing -/

section
variable (hw : Wired h u ws g) (hne : ws ≠ []) (ha : h.Accepting) (hu : u.attached.Nodup)

include hw hne ha hu

theorem writeText_host (text : Bytes) :
    ∃ g', ws.writeText text g = .ok ⟨text.length, none⟩ g' ∧ Wired h (u.write text) ws g' := by
  obtain ⟨g', hwrite, hs⟩ := Outlet.spreads_writeText_of_accepts
    (fun w _ i _ => (hw.accepting ha).accepts i) hne hw.failures text
  have hspares : g.Spares (ws.reach g) g' := by
    have := Outlet.writeText_spares (ws.covers_reach g) (fun w => Outlet.includes_reach g) text
    rwa [hwrite] at this
  have hk := hs.keeps
  refine ⟨g', hwrite, hk.kinds.trans hw.kinds, hk.policies.trans hw.policies, ?_, ?_, ?_, ?_, ?_, ?_⟩
  · rw [funext hk.sink?]; exact hw.sinks
  · intro w hm
    rw [hk.writer_failure?]; exact hw.failures w hm
  · intro b hb
    exact hk.lt_size (hw.buffers b hb)
  · intro w hm i hi
    rw [hk.sink?] at hi
    rw [hs.given w i (hw.feeds hu hm hi), hw.given w hm i hi,
      Wiring.text_write_of_mem (hw.mem_attached hm hi).1, List.append_assoc]
  · intro i (hi : i ∉ u.attached) hrec
    rw [hspares.received (hw.not_reached hi), hw.detached i hi hrec, Wiring.text_write_of_not_mem hi]
  · intro b hb hm
    rw [hspares.held hm]; exact hw.idle b hb hm

/-- A flush gives every sink all of its text, and nothing waits any more. So the outlet can be given
up. -/
theorem flush : ∃ e g', ws.flush g = .ok e g' ∧ g.Keeps g' ∧
    Wired h { u with attached := [] } [] g' := by
  have ha' := hw.accepting ha
  obtain ⟨e, g', hflush, hempties⟩ := Outlet.empties_flush_of_accepts
    (fun w _ i _ => ha'.accepts i) hne hw.failures (fun w _ i p _ => ha'.returns i p)
  have hspares : g.Spares (ws.reach g) g' := by
    have := Outlet.flush_spares (ws.covers_reach g) (fun w => Outlet.includes_reach g)
    rwa [hflush] at this
  have hk := hempties.spreads.keeps
  refine ⟨e, g', hflush, hk, hk.kinds.trans hw.kinds, hk.policies.trans hw.policies, rfl,
    (fun _ hm => nomatch hm), (fun _ hm => nomatch hm), (fun _ hm => nomatch hm), ?_, ?_⟩
  · intro i _ hrec
    by_cases hi : i ∈ u.attached
    · obtain ⟨w, hm, hsink⟩ := hw.exists_writer hi hrec
      have hgiven := hempties.spreads.given w i (hw.feeds hu hm hsink)
      rwa [hempties.held w hm, List.append_nil, List.append_nil, hw.given w hm i hsink] at hgiven
    · rw [hspares.received (hw.not_reached hi), hw.detached i hi hrec]
  · intro b hb _
    by_cases hm : .buffered b ∈ ws
    · exact hempties.held (.buffered b) hm
    · rw [hspares.held hm]; exact hw.idle b hb hm

end

/-! ## Attaching -/

/-- A new writer beside others. -/
theorem attach (hw : Wired h u ws g) (hopen : Writer.ofSink i g = .ok w g') (hi : i ∉ u.attached) :
    Wired h { u with attached := u.attached ++ [i] } (ws ++ [w]) g' := by
  obtain ⟨w', h', hopen', he, hsink, hfresh⟩ := Host.ofSink_fresh g i
  cases hopen.symm.trans hopen'
  have hreceived : g'.received = g.received := funext fun j => by
    rw [Host.received, Host.received, he.events]
  have hold : ∀ v ∈ ws, ∀ b, v = .buffered b → b < g.buffers.size :=
    fun v hv b hb => hw.buffers b (hb ▸ hv)
  have hslot : w.sink? g' = h.slot? i := by rw [hsink, hw.slot?]
  refine ⟨he.kinds.trans hw.kinds, ?_, ?_, ?_, ?_, ?_, ?_, ?_⟩
  · rw [← hw.policies]
    exact funext fun j => by rw [Host.policy?, Host.policy?, he.sinks]
  · have hbefore : ws.filterMap (·.sink? g') = ws.filterMap (·.sink? g) :=
      List.filterMap_congr fun v hv => he.sink? (hold v hv)
    have hnew : [w].filterMap (·.sink? g') = [i].filterMap h.slot? := by
      simp only [List.filterMap_cons, hslot, List.filterMap_nil]
    rw [List.filterMap_append, List.filterMap_append, hbefore, hnew, hw.sinks]
  · intro v hv
    rcases List.mem_append.mp hv with hv | hv
    · rw [he.writer_failure? (hold v hv)]; exact hw.failures v hv
    · rw [List.mem_singleton.mp hv]; exact hfresh.failure
  · intro b hb
    rcases List.mem_append.mp hb with hb | hb
    · exact Nat.lt_of_lt_of_le (hw.buffers b hb) he.size
    · exact hfresh.buffer b (List.mem_singleton.mp hb).symm
  · intro v hv j hj
    rw [hreceived]
    rcases List.mem_append.mp hv with hv | hv
    · rw [he.sink? (hold v hv)] at hj
      rw [he.held (hold v hv)]; exact hw.given v hv j hj
    · rw [List.mem_singleton.mp hv] at hj ⊢
      rw [hslot] at hj
      obtain ⟨rfl, hrec⟩ := Host.slot?_eq_some.mp hj
      rw [hfresh.held, List.append_nil]
      exact hw.detached i hi hrec
  · intro j hj hrec
    rw [hreceived]
    exact hw.detached j (fun hm => hj (List.mem_append_left _ hm)) hrec
  · intro b hb hm
    rw [Host.held_ofSink hopen]
    exact hw.idle b hb fun hmem => hm (List.mem_append_left _ hmem)

end Wired

/-! ## Steps of a session -/

namespace Session

variable {h : Host} {u : Wiring} {s s' : Session}

/-- The session has an outlet, and that is wired as `u` says. -/
def WiredAs (h : Host) (u : Wiring) (s : Session) : Prop :=
  s.outlet ≠ [] ∧ Wired h u s.outlet s.host

section
variable (hw : s.WiredAs h u) (ha : h.Accepting)

include hw

theorem WiredAs.addTee {i : Nat} (hu : (u.attach (.tee i)).attached.Nodup) :
    ∃ s', addTee i s = .ok () s' ∧ s'.WiredAs h (u.attach (.tee i)) := by
  obtain ⟨w, g, hopen, -⟩ := Host.ofSink_fresh s.host i
  have hi : i ∉ u.attached := by
    intro hm
    exact (List.nodup_append.mp hu).2.2 i hm i (List.mem_singleton_self i) rfl
  exact ⟨_, addTee_ok hopen, by simp, hw.2.attach hopen hi⟩

include ha

theorem WiredAs.writeText (hu : u.attached.Nodup) (text : Bytes) :
    ∃ s', writeText text s = .ok () s' ∧ s'.WiredAs h (u.write text) := by
  obtain ⟨g, hwrite, hw'⟩ := hw.2.writeText_host hw.1 ha hu text
  exact ⟨{ s with host := g }, Act.bind_ok (onHost_ok hwrite), hw.1, hw'⟩

theorem WiredAs.writeLine (hu : u.attached.Nodup) (text : Bytes) :
    ∃ s', writeLine text s = .ok () s' ∧ s'.WiredAs h (u.write (text ++ bytes "\n")) := by
  obtain ⟨s₁, hfirst, hw₁⟩ := hw.writeText ha hu text
  obtain ⟨s₂, hsecond, hw₂⟩ := hw₁.writeText ha hu (bytes "\n")
  rw [Wiring.write_write] at hw₂
  exact ⟨s₂, (Act.bind_ok hfirst).trans hsecond, hw₂⟩

theorem WiredAs.setOutput (hu : u.attached.Nodup) (i : Nat) :
    ∃ s', setOutput i s = .ok () s' ∧ s'.WiredAs h (u.attach (.output i)) := by
  obtain ⟨e, g, hflush, -, hw₁⟩ := hw.2.flush hw.1 ha hu
  obtain ⟨w, g', hopen, -⟩ := Host.ofSink_fresh g i
  exact ⟨_, setOutput_ok hw.1 hflush hopen, by simp, hw₁.attach hopen List.not_mem_nil⟩

theorem WiredAs.rewire {step : Rewiring} (hu : u.attached.Nodup)
    (hu' : (u.after step).attached.Nodup) :
    ∃ s', rewire step s = .ok () s' ∧ s'.WiredAs h (u.after step) := by
  cases step with
  | line text => exact hw.writeLine ha hu text
  | setting x =>
    cases x with
    | output i => exact hw.setOutput ha hu i
    | tee i => exact hw.addTee hu'
    | program p => exact ⟨_, rfl, hw⟩
    | logger l => exact ⟨_, rfl, hw⟩
    | strict => exact ⟨_, rfl, hw⟩
    | listing coloured => exact ⟨_, rfl, hw⟩
    | values vs => exact ⟨_, rfl, hw⟩
    | position p => exact ⟨_, rfl, hw⟩

theorem WiredAs.rewireAll {steps : List Rewiring} (hu : u.Apart steps) :
    ∃ s', rewireAll steps s = .ok () s' ∧ s'.WiredAs h (u.afterAll steps) := by
  induction steps generalizing u s with
  | nil => exact ⟨s, rfl, hw⟩
  | cons step rest ih =>
    obtain ⟨s₁, hstep, hw₁⟩ := hw.rewire ha hu.1 hu.2.nodup
    obtain ⟨s₂, hrest, hw₂⟩ := ih hw₁ hu.2
    exact ⟨s₂, (Act.bind_ok hstep).trans hrest, hw₂⟩

/-- A halt flushes first; what is logged then may reach the sink of the logger only. -/
theorem WiredAs.halt {α : Type} (hu : u.attached.Nodup) (reason : Option Error) :
    ∃ abort s', (halt reason : M α) s = .error abort s' ∧
      (∀ i, h.Records i → s.logger.sink? s.host ≠ some i →
        s'.host.received i = h.received i ++ u.text i) ∧
      ∀ b ≥ h.buffers.size, s'.host.held b = [] := by
  obtain ⟨e, g, hflush, hk, hw₁⟩ := hw.2.flush hw.1 ha hu
  have hsettle : settle reason s = .ok (reason <|> e) { s with host := g } := by
    unfold settle
    split
    · next hnil => exact absurd hnil hw.1
    · simp only [onHost_ok hflush]
  let r : Reach := ⟨fun i => s.logger.sink? s.host = some i, fun _ => False, True⟩
  have hsink : ∀ i, s.logger.sink? g = some i → r.sinks i := fun i hi => by
    rwa [hk.logger_sink?] at hi
  obtain ⟨abort, s', hhalt, hspares⟩ := halt_spares (r := r) trivial hsettle hsink
  refine ⟨abort, s', hhalt, fun i hrec hi => ?_, fun b hb => ?_⟩
  · rw [hspares.received hi]
    exact hw₁.detached i List.not_mem_nil hrec
  · rw [hspares.held (fun hfalse => hfalse)]
    exact hw₁.idle b hb List.not_mem_nil

end

theorem rewireAll_settings (xs : List Setting) : rewireAll (xs.map .setting) = applyEach xs := by
  induction xs with
  | nil => rfl
  | cons x rest ih => rw [List.map_cons, rewireAll, applyEach, ih]; rfl

end Session

/-- **Changing the output loses and repeats nothing.** Give a new session any settings, and then in
any order more settings and lines, so that no sink is attached twice at the same time; all sinks take
what they are given. Then a sink that is attached has received the lines that were written while it
was, up to what waits in the one writer in front of it; one that is not attached has received all of
its lines, and nothing waits in buffers other than those of the outlet. After a flush or a halt
nothing waits at all. -/
theorem rewired_of_new {h : Host} (ha : h.Accepting) (settings : List SettingTree)
    (steps : List Rewiring) {u : Wiring}
    (hapart : Wiring.Apart {} ((SettingTree.flattenAll settings).map .setting ++ steps))
    (hu : Wiring.afterAll {} ((SettingTree.flattenAll settings).map .setting ++ steps) = u) :
    ∃ s₀ s, Session.new settings h = .ok () s₀ ∧ Session.rewireAll steps s₀ = .ok () s ∧
      (∀ i ∈ u.attached, h.Records i → ∃ w, Outlet.Feeds s.host s.outlet w i ∧
        s.host.received i ++ w.held s.host = h.received i ++ u.text i) ∧
      (∀ i ∉ u.attached, h.Records i → s.host.received i = h.received i ++ u.text i) ∧
      (∀ b ≥ h.buffers.size, s.host.held b ≠ [] →
        .buffered b ∈ s.outlet ∧ ∃ i ∈ u.attached, s.host.behind? b = some i) ∧
      (∃ e g, s.outlet.flush s.host = .ok e g ∧
        (∀ i, h.Records i → g.received i = h.received i ++ u.text i) ∧
        ∀ b ≥ h.buffers.size, g.held b = []) ∧
      ∀ reason, ∃ abort s', (Session.halt reason : Session.M Unit) s = .error abort s' ∧
        (∀ i, h.Records i → s.logger.sink? s.host ≠ some i →
          s'.host.received i = h.received i ++ u.text i) ∧
        ∀ b ≥ h.buffers.size, s'.host.held b = [] := by
  have hfresh : (Session.fresh h).WiredAs h {} := ⟨by simp [Session.fresh], Wired.fresh h⟩
  obtain ⟨hfront, hrest⟩ := hapart.append
  obtain ⟨s₀, hnew, hw₀⟩ := hfresh.rewireAll ha hfront
  obtain ⟨s, hsteps, hw⟩ := hw₀.rewireAll ha hrest
  rw [Session.rewireAll_settings, ← Session.new_eq] at hnew
  have hnodup := hapart.nodup_afterAll
  rw [← Wiring.afterAll_append, hu] at hw
  rw [hu] at hnodup
  refine ⟨s₀, s, hnew, hsteps, fun i hi hrec => ?_, hw.2.detached, fun b hb hheld => ?_, ?_,
    fun reason => hw.halt ha hnodup reason⟩
  · obtain ⟨w, hmem, hsink⟩ := hw.2.exists_writer hi hrec
    exact ⟨w, hw.2.feeds hnodup hmem hsink, hw.2.given w hmem i hsink⟩
  · have hmem : .buffered b ∈ s.outlet := by
      by_contra hout
      exact hheld (hw.2.idle b hb hout)
    have hlt := hw.2.buffers b hmem
    have hsink : s.host.behind? b = some s.host.buffers[b].sink := by
      rw [Host.behind?, Array.getElem?_eq_getElem hlt]; rfl
    exact ⟨hmem, _, (hw.2.mem_attached hmem hsink).1, hsink⟩
  · obtain ⟨e, g, hflush, -, hw₁⟩ := hw.2.flush hw.1 ha hnodup
    exact ⟨e, g, hflush, fun i hrec => hw₁.detached i List.not_mem_nil hrec,
      fun b hb => hw₁.idle b hb List.not_mem_nil⟩

/-- A sink in memory, a raw one, and one whose flushes fail. -/
def Host.openSinks : Host where
  sinks := #[{ kind := .memory }, { kind := .raw },
    { kind := .flushing, policy := { flush := fun _ => .done (some (.external (bytes "late"))) } }]

theorem Host.accepting_openSinks : Host.openSinks.Accepting := by
  refine ⟨fun i p hp past data => ?_, fun i p hp past => ?_⟩
  · match i with
    | 0 | 1 | 2 => cases hp; rfl
    | _ + 3 => cases hp
  · match i with
    | 0 | 1 => cases hp; exact ⟨none, rfl⟩
    | 2 => cases hp; exact ⟨_, rfl⟩
    | _ + 3 => cases hp

/-- A line for the raw sink and the one in memory, one for the flushing sink that takes their place,
and one for that and the raw sink, which has come back and has a second buffer. -/
def Rewiring.comeAndGo : List Rewiring :=
  [.line (bytes "a"), .setting (.output 2), .line (bytes "b"), .setting (.tee 1), .line (bytes "c")]

theorem rewired_of_new_comeAndGo : ∃ s₀ s,
    Session.new [.single (.output 1), .group [.missing, .single (.tee 0)]] .openSinks = .ok () s₀ ∧
    Session.rewireAll Rewiring.comeAndGo s₀ = .ok () s ∧ s.host.received 0 = bytes "a\n" ∧
    (∃ w, Outlet.Feeds s.host s.outlet w 1 ∧
      s.host.received 1 ++ w.held s.host = bytes "a\nc\n") ∧
    ∃ e g, s.outlet.flush s.host = .ok e g ∧ g.received 1 = bytes "a\nc\n" ∧
      g.received 2 = bytes "b\nc\n" ∧ ∀ b ≥ 0, g.held b = [] := by
  have hrecords : ∀ i < 3, Host.openSinks.Records i := by
    intro i hi
    match i with
    | 0 | 1 | 2 => exact ⟨_, rfl, by decide⟩
  obtain ⟨s₀, s, hnew, hsteps, hattached, hdetached, -, ⟨e, g, hflush, hreceived, hheld⟩, -⟩ :=
    rewired_of_new Host.accepting_openSinks
      [.single (.output 1), .group [.missing, .single (.tee 0)]] Rewiring.comeAndGo (by decide) rfl
  exact ⟨s₀, s, hnew, hsteps, hdetached 0 (by decide) (hrecords 0 (by decide)),
    hattached 1 (by decide) (hrecords 1 (by decide)), e, g, hflush,
    hreceived 1 (hrecords 1 (by decide)), hreceived 2 (hrecords 2 (by decide)), hheld⟩

end WordStack
