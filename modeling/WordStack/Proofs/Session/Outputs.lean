import WordStack.Proofs.Host.Delivery
import WordStack.Proofs.Session.Progress
import WordStack.Session.Setting

/-!
# Sessions with an output and tees

An output and tees give a session one writer for each sink: none behind which bytes wait, and none
that has met an error. If the sinks are different ones, then each of them that keeps what it takes
is fed by exactly one writer.

* `Session.Honest`: what is asked of a session for its output to be delivered.
* `Session.Opened`: the outlet has one new writer for each of some sinks.
* `Session.opened_of_settings`: so has a session that was given an output and tees.
* `Session.Opened.honest`, `Session.Opened.exists_feeds`: such a session is honest if its sinks are,
  and feeds them.
-/
namespace WordStack

/-- The sink itself, if it keeps what it takes. -/
def Host.slot? (h : Host) (i : Nat) : Option Nat :=
  match h.kind? i with
  | none | some .discard => none
  | some _ => some i

/-- A writer in front of which nothing waits and that has met no error; raw sinks have a buffer. -/
structure Writer.Fresh (h : Host) (w : Writer) : Prop where
  held : w.held h = []
  failure : w.failure? h = none
  buffer : ∀ b, w = .buffered b → b < h.buffers.size
  bare : ∀ i, w.bare? = some i → h.kind? i ≠ some .raw

namespace Host

variable {h h' : Host} {i j : Nat} {w : Writer}

theorem slot?_eq_some : h.slot? i = some j ↔ i = j ∧ h.Records j := by
  unfold slot? Records
  constructor
  · intro hi
    split at hi
    · cases hi
    · cases hi
    · next kind hne hkind =>
      cases hi
      exact ⟨rfl, kind, hkind, hne⟩
  · rintro ⟨rfl, kind, hkind, hne⟩
    rw [hkind]
    cases kind <;> simp_all

/-- The sinks are the same and so is what they have received, and no buffer is gone. -/
structure Extends (h h' : Host) : Prop where
  sinks : h'.sinks = h.sinks
  events : h'.events = h.events
  size : h.buffers.size ≤ h'.buffers.size
  buffers : ∀ b < h.buffers.size, h'.buffers[b]? = h.buffers[b]?

theorem Extends.refl (h : Host) : h.Extends h := ⟨rfl, rfl, Nat.le_refl _, fun _ _ => rfl⟩

section
variable (e : h.Extends h') (hw : ∀ b, w = .buffered b → b < h.buffers.size)

include e hw

theorem Extends.sink? : w.sink? h' = w.sink? h := by
  cases w with
  | buffered b => simp [Writer.sink?, behind?, e.buffers b (hw b rfl)]
  | _ => rfl

theorem Extends.held : w.held h' = w.held h := by
  cases w with
  | buffered b => simp [Writer.held, Host.held, e.buffers b (hw b rfl)]
  | _ => rfl

theorem Extends.writer_failure? : w.failure? h' = w.failure? h := by
  cases w with
  | buffered b => simp [Writer.failure?, Host.failure?, e.buffers b (hw b rfl)]
  | _ => rfl

end

theorem Extends.kinds (e : h.Extends h') : h'.kind? = h.kind? :=
  funext fun i => by rw [kind?, kind?, e.sinks]

theorem Extends.fresh (e : h.Extends h') (hw : w.Fresh h) : w.Fresh h' := by
  refine ⟨?_, ?_, fun b hb => Nat.lt_of_lt_of_le (hw.buffer b hb) e.size, ?_⟩
  · rw [e.held hw.buffer]; exact hw.held
  · rw [e.writer_failure? hw.buffer]; exact hw.failure
  · rw [e.kinds]; exact hw.bare

/-- A new writer for a sink. -/
theorem ofSink_fresh (h : Host) (i : Nat) : ∃ w h', Writer.ofSink i h = .ok w h' ∧ h.Extends h' ∧
    w.sink? h' = h.slot? i ∧ w.Fresh h' := by
  have hplain : ∀ w : Writer, (∀ b, w ≠ .buffered b) →
      (∀ i, w.bare? = some i → h.kind? i ≠ some .raw) → w.Fresh h := by
    intro w hw hbare
    cases w with
    | buffered b => exact absurd rfl (hw b)
    | _ => exact ⟨rfl, rfl, (fun b hb => absurd hb (hw b)), hbare⟩
  unfold Writer.ofSink
  rw [Act.get_bind]
  cases hs : h.sinks[i]? with
  | none =>
    exact ⟨.discard, h, rfl, Extends.refl h, by simp [slot?, kind?, hs, Writer.sink?],
      hplain _ (by simp) (by simp [Writer.bare?])⟩
  | some s =>
    cases hk : s.kind with
    | discard =>
      exact ⟨.discard, h, by simp only [hk]; rfl, Extends.refl h,
        by simp [slot?, kind?, hs, hk, Writer.sink?], hplain _ (by simp) (by simp [Writer.bare?])⟩
    | memory =>
      exact ⟨.direct i, h, by simp only [hk]; rfl, Extends.refl h,
        by simp [slot?, kind?, hs, hk, Writer.sink?],
        hplain _ (by simp) (by simp [Writer.bare?, kind?, hs, hk])⟩
    | flushing =>
      exact ⟨.flushing i, h, by simp only [hk]; rfl, Extends.refl h,
        by simp [slot?, kind?, hs, hk, Writer.sink?],
        hplain _ (by simp) (by simp [Writer.bare?, kind?, hs, hk])⟩
    | raw =>
      refine ⟨.buffered h.buffers.size, { h with buffers := h.buffers.push { sink := i } },
        by simp only [hk]; rfl, ⟨rfl, rfl, by simp, ?_⟩, ?_, ?_⟩
      · intro b hb
        simp [Array.getElem?_push, Nat.ne_of_lt hb]
      · simp [slot?, kind?, hs, hk, Writer.sink?, behind?]
      · refine ⟨?_, ?_, ?_, by simp [Writer.bare?]⟩
        · simp [Writer.held, Host.held]
        · simp [Writer.failure?, failure?]
        · intro b hb; cases hb; simp

theorem ofSink_eq (hopen : Writer.ofSink i h = .ok w h') : h' = { h with buffers := h'.buffers } := by
  unfold Writer.ofSink at hopen
  rw [Act.get_bind] at hopen
  cases hs : h.sinks[i]? with
  | none =>
    rw [hs] at hopen
    cases hopen
    rfl
  | some s =>
    rw [hs] at hopen
    cases hk : s.kind <;> simp only [hk] at hopen <;> cases hopen <;> rfl

/-- A new buffer is empty. -/
theorem held_ofSink (hopen : Writer.ofSink i h = .ok w h') (b : Nat) : h'.held b = h.held b := by
  unfold Writer.ofSink at hopen
  rw [Act.get_bind] at hopen
  cases hs : h.sinks[i]? with
  | none =>
    rw [hs] at hopen
    cases hopen
    rfl
  | some s =>
    rw [hs] at hopen
    cases hk : s.kind with
    | raw =>
      simp only [hk] at hopen
      cases hopen
      simp only [held, Array.getElem?_push]
      split
      · next hb => simp [hb]
      · rfl
    | _ =>
      simp only [hk] at hopen
      cases hopen
      rfl

/-- Nothing is written by a flush of a writer in front of which nothing waits. -/
theorem writer_flush_of_empty (hheld : w.held h = []) (hreturns : ∀ i p, w = .flushing i →
    h.policy? i = some p → ∀ past, ∃ e, p.flush past = .done e) :
    ∃ e h', w.flush h = .ok e h' ∧ h.Keeps h' ∧ h'.buffers = h.buffers := by
  cases w with
  | discard | direct i => exact ⟨none, h, rfl, Keeps.refl h, rfl⟩
  | flushing i =>
    obtain ⟨e, h', hflush⟩ := exists_flushSink (hreturns i · rfl)
    have hcalls := (calls_of_flushSink hflush).1
    exact ⟨e, h', hflush, hcalls.keeps, hcalls.buffers⟩
  | buffered b =>
    have hsame : ∃ e, flushBuffer b h = .ok e h := by
      unfold flushBuffer
      rw [Act.get_bind]
      cases hb : h.buffers[b]? with
      | none => exact ⟨none, rfl⟩
      | some buf =>
        obtain ⟨sink, held, error⟩ := buf
        obtain rfl : held = [] := by simpa [Writer.held, Host.held, hb] using hheld
        cases error with
        | some e => exact ⟨some e, rfl⟩
        | none => exact ⟨none, rfl⟩
    obtain ⟨e, hflush⟩ := hsame
    exact ⟨e, h, hflush, Keeps.refl h, rfl⟩

theorem flush_of_empty {ws : Outlet} (hne : ws ≠ []) (hheld : ∀ w ∈ ws, w.held h = [])
    (hreturns : ∀ w ∈ ws, ∀ i p, w = .flushing i → h.policy? i = some p →
      ∀ past, ∃ e, p.flush past = .done e) :
    ∃ e h', ws.flush h = .ok e h' ∧ h.Keeps h' := by
  have hall : ∀ (vs : Outlet) (g : Host), vs ⊆ ws → h.Keeps g → g.buffers = h.buffers →
      ∃ e h', attemptAll Writer.flush vs g = .ok e h' ∧ h.Keeps h' := by
    intro vs
    induction vs with
    | nil => exact fun g _ hk _ => ⟨none, g, rfl, hk⟩
    | cons v rest ih =>
      intro g hsub hk hb
      have hv := hsub List.mem_cons_self
      obtain ⟨e₁, g₁, hflush, hk₁, hb₁⟩ := writer_flush_of_empty
        ((v.held_eq hb).trans (hheld v hv)) (by rw [hk.policies]; exact hreturns v hv)
      obtain ⟨e₂, g₂, hrest, hk₂⟩ := ih g₁ (fun x hx => hsub (List.mem_cons_of_mem _ hx))
        (hk.trans hk₁) (hb₁.trans hb)
      refine ⟨e₁ <|> e₂, g₂, ?_, hk₂⟩
      rw [attemptAll, Act.bind_ok hflush, Act.bind_ok hrest]; rfl
  cases ws with
  | nil => exact absurd rfl hne
  | cons w rest =>
    cases rest with
    | nil =>
      obtain ⟨e, h', hflush, hk, -⟩ := writer_flush_of_empty (hheld w List.mem_cons_self)
        (hreturns w List.mem_cons_self)
      exact ⟨e, h', hflush, hk⟩
    | cons v rest => exact hall _ h (fun _ hx => hx) (Keeps.refl h) rfl

end Host

namespace Session

/-- There is an outlet, its sinks are honest and no buffer has met an error, and nothing is
logged. -/
structure Honest (s : Session) : Prop where
  outlet : s.outlet ≠ []
  writers : ∀ w ∈ s.outlet, w.Honest s.host
  failures : ∀ w ∈ s.outlet, w.failure? s.host = none
  logger : s.logger = .absent

/-- The outlet of `s` has one new writer for each of some places of the host `h`, and nothing was
written since. -/
structure Opened (h : Host) (places : List Nat) (s : Session) : Prop where
  sinks : s.host.sinks = h.sinks
  events : s.host.events = h.events
  outlet : s.outlet.map (·.sink? s.host) = places.map h.slot?
  fresh : ∀ w ∈ s.outlet, w.Fresh s.host

/-- The session `s'` differs from `s` in its outlet, the sinks to close and the host. -/
def Rewired (s s' : Session) : Prop :=
  s' = { s with outlet := s'.outlet, closers := s'.closers, host := s'.host }

variable {h : Host} {s s' : Session} {places : List Nat} {i : Nat} {w : Writer}

theorem Rewired.trans {s'' : Session} (r : s.Rewired s') (r' : s'.Rewired s'') : s.Rewired s'' := by
  rw [Rewired, r', r]

/-! ## Settings -/

/-- One more writer. -/
theorem Opened.extend {h' : Host} (closers : List Nat) (ho : s.Opened h places)
    (he : s.host.Extends h') (hw : w.sink? h' = s.host.slot? i) (hf : w.Fresh h') :
    Opened h (places ++ [i]) { s with outlet := s.outlet ++ [w], closers, host := h' } := by
  have hslot : s.host.slot? i = h.slot? i := by
    rw [Host.slot?, Host.slot?, Host.kind?, Host.kind?, ho.sinks]
  refine ⟨he.sinks.trans ho.sinks, he.events.trans ho.events, ?_, ?_⟩
  · rw [List.map_append, List.map_append, ← ho.outlet]
    congr 1
    · exact List.map_congr_left fun v hv => he.sink? (ho.fresh v hv).buffer
    · simp [hw, hslot]
  · intro v hv
    rcases List.mem_append.mp hv with hv | hv
    · exact he.fresh (ho.fresh v hv)
    · rw [List.mem_singleton.mp hv]; exact hf

theorem Opened.addTee (ho : s.Opened h places) (i : Nat) : ∃ s', addTee i s = .ok () s' ∧
    s'.Opened h (places ++ [i]) ∧ s.Rewired s' := by
  obtain ⟨w, h', hopen, he, hw, hf⟩ := Host.ofSink_fresh s.host i
  have hhost : onHost (Writer.ofSink i) s = .ok w { s with host := h' } := by
    simp only [onHost, Act.zoom, hopen]
  have hopened := ho.extend (if h'.isClosable i then i :: s.closers else s.closers) he hw hf
  rw [← Outlet.join_pair] at hopened
  exact ⟨_, Act.bind_ok hhost, hopened, rfl⟩

/-- The outlet before, which drops everything, is flushed and given up. -/
theorem setOutput_of_discard (hs : s.outlet = [.discard]) (i : Nat) :
    ∃ s', setOutput i s = .ok () s' ∧ s'.Opened s.host [i] ∧ s.Rewired s' := by
  obtain ⟨w, h', hopen, he, hw, hf⟩ := Host.ofSink_fresh s.host i
  have hhost : onHost (Writer.ofSink i) s = .ok w { s with host := h' } := by
    simp only [onHost, Act.zoom, hopen]
  have hnone : Opened s.host [] { s with outlet := [] } :=
    ⟨rfl, rfl, rfl, fun _ hw => absurd hw List.not_mem_nil⟩
  refine ⟨{ s with outlet := [w], host := h' }, ?_, hnone.extend s.closers he hw hf, rfl⟩
  unfold setOutput
  rw [Act.get_bind, hs]
  exact Act.bind_ok (k := fun w => modify fun s => { s with outlet := [w] }) hhost

theorem Opened.addTees (ho : s.Opened h places) (tees : List Nat) :
    ∃ s', applyTrees (tees.map fun i => .single (.tee i)) s = .ok () s' ∧
      s'.Opened h (places ++ tees) ∧ s.Rewired s' := by
  induction tees generalizing s places with
  | nil => exact ⟨s, rfl, by rwa [List.append_nil], rfl⟩
  | cons i tees ih =>
    obtain ⟨s₁, htee, ho₁, hr₁⟩ := ho.addTee i
    obtain ⟨s₂, hrest, ho₂, hr₂⟩ := ih ho₁
    rw [List.append_assoc, List.singleton_append] at ho₂
    exact ⟨s₂, (Act.bind_ok htee).trans hrest, ho₂, hr₁.trans hr₂⟩

/-- A session whose output was dropped so far is given an output and tees. -/
theorem opened_of_settings (hs : s.outlet = [.discard]) (output : Nat) (tees : List Nat) :
    ∃ s', applyTrees (.single (.output output) :: tees.map fun i => .single (.tee i)) s =
        .ok () s' ∧ s'.Opened s.host (output :: tees) ∧ s.Rewired s' := by
  obtain ⟨s₁, houtput, ho, hr⟩ := setOutput_of_discard hs output
  obtain ⟨s₂, htees, ho', hr'⟩ := ho.addTees tees
  exact ⟨s₂, (Act.bind_ok houtput).trans htees, ho', hr.trans hr'⟩

/-! ## What such a session feeds -/

section
variable (ho : s.Opened h places)

include ho

theorem Opened.mem_sinks (hw : w ∈ s.outlet) (hi : w.sink? s.host = some i) : i ∈ places := by
  have hmem : some i ∈ places.map h.slot? := by
    rw [← ho.outlet, ← hi]; exact List.mem_map_of_mem hw
  obtain ⟨j, hj, hslot⟩ := List.mem_map.mp hmem
  obtain ⟨rfl, -⟩ := Host.slot?_eq_some.mp hslot
  exact hj

theorem Opened.honest (hne : places ≠ []) (hl : s.logger = .absent)
    (hhonest : ∀ i ∈ places, h.Honest i)
    (hflush : ∀ i ∈ places, ∀ p, h.policy? i = some p → ∀ past, p.flush past = .done none) :
    s.Honest := by
  have hpolicies : s.host.policy? = h.policy? := funext fun i => by
    rw [Host.policy?, Host.policy?, ho.sinks]
  refine ⟨?_, fun w hw => ⟨?_, ?_⟩, fun w hw => (ho.fresh w hw).failure, hl⟩
  · intro hnil
    have := ho.outlet
    rw [hnil] at this
    exact hne (List.map_eq_nil_iff.mp this.symm)
  · intro i hi
    rw [Host.Honest, hpolicies]
    exact hhonest i (ho.mem_sinks hw hi)
  · intro i p hi hp
    rw [hpolicies] at hp
    exact hflush i (ho.mem_sinks hw (by rw [hi]; rfl)) p hp

/-- Every sink that keeps what it takes is fed, unless the lines of a log go there too, and nothing
was printed to it yet. -/
theorem Opened.exists_feeds_of_sink (hl : s.logger.sink? s.host ≠ some i)
    (hdistinct : places.Nodup) (hi : i ∈ places) (hrec : h.Records i) :
    ∃ w, s.Feeds w i ∧ s.printed w i = h.received i := by
  have hslot : h.slot? i = some i := Host.slot?_eq_some.mpr ⟨rfl, hrec⟩
  have hmem : some i ∈ s.outlet.map (·.sink? s.host) := by
    rw [ho.outlet, ← hslot]; exact List.mem_map_of_mem hi
  obtain ⟨w, hw, hsink⟩ := List.mem_map.mp hmem
  have honce : (s.outlet.map (·.sink? s.host)).count (some i) = 1 := by
    rw [ho.outlet, List.count_eq_countP, List.countP_map]
    have hsame : places.countP ((· == some i) ∘ h.slot?) = places.count i := by
      rw [List.count_eq_countP]
      refine List.countP_congr fun j _ => ?_
      simp [Host.slot?_eq_some, hrec]
    have hle := List.nodup_iff_count.mp hdistinct i
    have hpos := List.count_pos_iff.mpr hi
    omega
  refine ⟨w, ⟨⟨hw, hsink, ?_, honce⟩, hl⟩, ?_⟩
  · rwa [Host.Records, Host.kind?, ho.sinks, ← Host.kind?]
  · rw [printed, (ho.fresh w hw).held, List.append_nil, Host.received, ho.events]; rfl

theorem Opened.exists_feeds (hl : s.logger = .absent) (hdistinct : places.Nodup) (hi : i ∈ places)
    (hrec : h.Records i) : ∃ w, s.Feeds w i ∧ s.printed w i = h.received i := by
  refine ho.exists_feeds_of_sink ?_ hdistinct hi hrec
  rw [hl]
  intro hnone; cases hnone

end

end Session

end WordStack
