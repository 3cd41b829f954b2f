import WordStack.Proofs.Session.Stepwise

/-!
# What output keeps

An outlet changes the host by few effects: it calls sinks, remembers what they took and that they were
flushed, and replaces buffers. A relation of hosts that each of these keeps is kept by all that the
writers of an outlet do, whether they return or not. So log lines and output go their own ways: no
recorder is called and no line is logged.

* `Host.KeptByOutput`: the effects of output keep a relation. `KeptByOutput.writeText`,
  `KeptByOutput.flush`: so do outlets.
* `Host.lines`: the lines that were logged, in order.
* `Host.Unlogged`: no line was logged from one host to another.
* `Outlet.writeText_unlogged`, `Outlet.flush_unlogged`: writing and flushing are so.
-/
namespace WordStack

open Act (Relates)

namespace Host

/-- Every effect of output keeps the relation. -/
structure KeptByOutput (R : Host → Host → Prop) : Prop where
  refl : ∀ h, R h h
  called : ∀ h i taken failed, R h (h.called i taken failed)
  write : ∀ h i data, R h (h.tell (.write i data))
  flush : ∀ h i, R h (h.tell (.flush i))
  buffers : ∀ h (buffers : Array Buffer), R h { h with buffers }

namespace KeptByOutput

variable {R : Host → Host → Prop} (hR : KeptByOutput R)

include hR

theorem of_pure {α : Type} (a : α) : Relates R (pure a : Act Host α) := hR.refl

theorem of_get : Relates R (get : Act Host Host) := hR.refl

theorem setBuffer (b : Nat) (buf : Buffer) : Relates R (setBuffer b buf) :=
  fun h => hR.buffers h _

variable [IsTrans Host R]

/-! ## Sinks and buffers -/

theorem writeSink (i : Nat) (data : Bytes) : Relates R (writeSink i data) := by
  intro h
  unfold Host.writeSink
  split
  · exact hR.refl h
  split
  · exact hR.refl h
  split
  · exact hR.called h _ _ _
  · exact hR.called h _ _ _
  · show R h (if _ then _ else _)
    split
    · exact hR.called h _ _ _
    · exact Trans.trans (hR.called h _ _ _) (hR.write _ _ _)

theorem flushSink (i : Nat) : Relates R (flushSink i) := by
  intro h
  have hflush : R h ((h.called i 0 false).tell (.flush i)) :=
    Trans.trans (hR.called h i 0 false) (hR.flush _ i)
  unfold Host.flushSink
  split
  · exact hR.refl h
  · dsimp only
    split
    · exact hflush
    · exact hflush

theorem flushBuffer (b : Nat) : Relates R (flushBuffer b) := by
  refine hR.of_get.bind fun h => ?_
  split
  · exact hR.of_pure _
  split
  · exact hR.of_pure _
  split
  · exact hR.of_pure _
  · exact (hR.writeSink _ _).bind fun _ => (hR.setBuffer _ _).bind fun _ => hR.of_pure _

theorem writeRounds (direct : Bool) (b rounds : Nat) (data : Bytes) (count : Nat) :
    Relates R (writeRounds direct b rounds data count) := by
  induction rounds generalizing data count with
  | zero => exact hR.of_pure _
  | succ rounds ih =>
    refine hR.of_get.bind fun h => ?_
    split
    · exact hR.of_pure _
    dsimp only
    split
    · exact hR.of_pure _
    split
    · exact (hR.setBuffer _ _).bind fun _ => hR.of_pure _
    split
    · exact (hR.writeSink _ _).bind fun _ => (hR.setBuffer _ _).bind fun _ => ih _ _
    · exact (hR.setBuffer _ _).bind fun _ => (hR.flushBuffer b).bind fun _ => ih _ _

/-! ## Writers and outlets -/

theorem writer_ofSink (i : Nat) : Relates R (Writer.ofSink i) := by
  have hbuffer : Relates R (addBuffer i) := fun h => hR.buffers h _
  refine hR.of_get.bind fun h => ?_
  split
  · exact hR.of_pure _
  split
  · exact hR.of_pure _
  · exact hR.of_pure _
  · exact hR.of_pure _
  · exact hbuffer.bind fun _ => hR.of_pure _

theorem writer_write (w : Writer) (data : Bytes) : Relates R (w.write data) := by
  cases w with
  | discard => exact hR.of_pure _
  | direct i | flushing i => exact hR.writeSink i data
  | buffered b => exact hR.writeRounds true b _ data 0

theorem writer_writeText (w : Writer) (text : Bytes) : Relates R (w.writeText text) := by
  cases w with
  | buffered b => exact hR.writeRounds false b _ text 0
  | discard => exact hR.writer_write .discard text
  | direct i => exact hR.writer_write (.direct i) text
  | flushing i => exact hR.writer_write (.flushing i) text

theorem writer_flush (w : Writer) : Relates R w.flush := by
  cases w with
  | discard | direct i => exact hR.of_pure _
  | flushing i => exact hR.flushSink i
  | buffered b => exact hR.flushBuffer b

theorem fanWrite (ws : Outlet) (data : Bytes) : Relates R (fanWrite Writer.write ws data) := by
  induction ws with
  | nil => exact hR.of_pure _
  | cons w rest ih =>
    refine (hR.writer_write w data).bind fun r => ?_
    split
    · exact hR.of_pure _
    split
    · exact hR.of_pure _
    · exact ih

theorem attemptAll (ws : Outlet) : Relates R (attemptAll Writer.flush ws) := by
  induction ws with
  | nil => exact hR.of_pure _
  | cons w rest ih => exact (hR.writer_flush w).bind fun _ => ih.bind fun _ => hR.of_pure _

theorem writeText (ws : Outlet) (text : Bytes) : Relates R (ws.writeText text) := by
  match ws with
  | [] => exact hR.refl
  | [w] => exact hR.writer_writeText w text
  | _ :: _ :: _ => exact hR.fanWrite _ text

theorem outlet_flush (ws : Outlet) : Relates R ws.flush := by
  match ws with
  | [] => exact hR.refl
  | [w] => exact hR.writer_flush w
  | _ :: _ :: _ => exact hR.attemptAll _

end KeptByOutput

end Host

/-! ## Log lines -/

/-- The line that an event logs. -/
def Event.line? : Event → Option Bytes
  | .log line => some line
  | .write .. | .flush _ | .close _ => none

namespace Host

/-- The lines that were logged, in order. -/
def lines (h : Host) : List Bytes := h.events.reverse.filterMap Event.line?

/-- No recorder was called and no line was logged. -/
structure Unlogged (h h' : Host) : Prop where
  recorders : h'.recorders = h.recorders
  lines : h'.lines = h.lines

variable {h h' h'' : Host}

theorem Unlogged.refl (h : Host) : h.Unlogged h := ⟨rfl, rfl⟩

theorem Unlogged.trans (a : h.Unlogged h') (b : h'.Unlogged h'') : h.Unlogged h'' :=
  ⟨b.recorders.trans a.recorders, b.lines.trans a.lines⟩

instance : IsTrans Host Unlogged := ⟨fun _ _ _ => Unlogged.trans⟩

@[simp] theorem lines_tell (h : Host) (e : Event) : (h.tell e).lines = h.lines ++ e.line?.toList := by
  cases he : e.line? <;> simp [lines, tell, he]

theorem unlogged_keptByOutput : KeptByOutput Unlogged where
  refl := Unlogged.refl
  called _ _ _ _ := ⟨rfl, rfl⟩
  write _ _ _ := ⟨rfl, by simp [Event.line?]⟩
  flush _ _ := ⟨rfl, by simp [Event.line?]⟩
  buffers _ _ := ⟨rfl, rfl⟩

end Host

namespace Outlet

theorem writeText_unlogged (ws : Outlet) (text : Bytes) :
    Relates Host.Unlogged (ws.writeText text) := Host.unlogged_keptByOutput.writeText ws text

theorem flush_unlogged (ws : Outlet) : Relates Host.Unlogged ws.flush :=
  Host.unlogged_keptByOutput.outlet_flush ws

end Outlet

end WordStack
