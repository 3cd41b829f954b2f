import WordStack.Host.Fan
import WordStack.Proofs.Host.Passing

/-!
# Fans behave like the flat list of their writers

Joining makes one flat fan of any nest of fans: it has the writers of the nest from left to right and
nothing else. Such a fan writes to its writers in turn up to the first that refuses, and flushes each
of them once. A nest that is not joined does the same at every call, so nothing is gained or lost by
joining: not how far a write comes, not what it returns, not the first error of a flush.

* `Fan.joined_eq`: the target that joining a nest makes.
* `Delivers`, `fanWrite_eq_iff`: what a write to writers in turn comes to.
* `attemptAll_eq`: a flush asks every writer once.
* `Fan.write_pruned`, `Fan.flush_pruned`: a nest of fans does what its writers do in a flat one.
* `Outlet.fan_join`, `Outlet.fan_write`, `Outlet.fan_flush`: the outlets of sessions are such fans.
* `Fan.joined_behaves`: joining keeps what a nest does.
-/
namespace WordStack

/-- A write was accepted: it took all bytes and returned no error. -/
def Wrote.IsFull (w : Wrote) (data : Bytes) : Prop := w.error = none ∧ data.length ≤ w.count

/-! ## Writers in turn -/

section
variable {α β σ : Type} {write : α → Bytes → Act σ Wrote} {data : Bytes}

/-- A write to writers in turn goes on with those behind if the ones in front accepted it. -/
theorem fanWrite_append (front back : List α) :
    fanWrite write (front ++ back) data = (do
      let w ← fanWrite write front data
      if w.error.isSome then return w else fanWrite write back data) := by
  induction front with
  | nil => simp [fanWrite]
  | cons a front ih =>
    rw [List.cons_append, fanWrite, fanWrite, bind_assoc]
    congr 1
    funext w
    split
    · next herror => simp [herror]
    split
    · simp
    · exact ih

theorem fanWrite_map (f : β → α) (writers : List β) :
    fanWrite write (writers.map f) data = fanWrite (fun b => write (f b)) writers data := by
  induction writers with
  | nil => rfl
  | cons b writers ih => rw [List.map_cons, fanWrite, fanWrite, ih]

/-- What writers in turn return is accepted or bears an error, so a fan around them adds nothing. -/
theorem fanWrite_fanWrite (writers : List α) (b : β) :
    fanWrite (fun _ => fanWrite write writers) [b] data = fanWrite write writers data := by
  have hsettled : ∀ writers : List α, (do
      let w ← fanWrite write writers data
      if w.error.isSome then return w
      else if w.count < data.length then return ⟨w.count, some .shortWrite⟩
      else return ⟨data.length, none⟩) = fanWrite write writers data := by
    intro writers
    induction writers with
    | nil => simp [fanWrite]
    | cons a writers ih =>
      simp only [fanWrite, bind_assoc]
      congr 1
      funext w
      split
      · next herror => simp [herror]
      split
      · simp
      · exact ih
  exact hsettled writers

theorem attemptAll_append {attempt : α → Act σ (Option Error)} (front back : List α) :
    attemptAll attempt (front ++ back) = (do
      let first ← attemptAll attempt front
      let later ← attemptAll attempt back
      return first <|> later) := by
  induction front with
  | nil =>
    rw [List.nil_append, attemptAll, pure_bind]
    exact (bind_pure _).symm
  | cons a front ih =>
    simp only [List.cons_append, attemptAll, ih, bind_assoc, pure_bind]
    congr 1
    funext x
    congr 1
    funext y
    congr 1
    funext z
    cases x <;> rfl

theorem attemptAll_map {attempt : α → Act σ (Option Error)} (f : β → α) (writers : List β) :
    attemptAll attempt (writers.map f) = attemptAll (fun b => attempt (f b)) writers := by
  induction writers with
  | nil => rfl
  | cons b writers ih => rw [List.map_cons, attemptAll, attemptAll, ih]

/-- Every one is asked once and in order, and the first error counts. -/
theorem attemptAll_eq (attempt : α → Act σ (Option Error)) (writers : List α) :
    attemptAll attempt writers = (·.findSome? id) <$> writers.mapM attempt := by
  induction writers with
  | nil => simp [attemptAll]
  | cons a writers ih =>
    rw [attemptAll, ih, List.mapM_cons]
    simp only [map_eq_pure_bind, bind_assoc, pure_bind]
    congr 1
    funext first
    congr 1
    funext later
    cases first <;> rfl

/-- What a write to writers in turn comes to, by the first of them that does not accept it. Those
behind it are not asked. -/
inductive Delivers (write : α → Bytes → Act σ Wrote) (data : Bytes) :
    List α → σ → EStateM.Result Abort σ Wrote → Prop
  | accepted {writers : List α} {ws : List Wrote} {s s' : σ}
    (hall : writers.mapM (write · data) s = .ok ws s') (hfull : ∀ w ∈ ws, w.IsFull data) :
    Delivers write data writers s (.ok ⟨data.length, none⟩ s')
  | refused {front back : List α} {a : α} {ws : List Wrote} {w : Wrote} {s t s' : σ}
    (hfront : front.mapM (write · data) s = .ok ws t) (hfull : ∀ w ∈ ws, w.IsFull data)
    (ha : write a data t = .ok w s') (hw : ¬ w.IsFull data) :
    Delivers write data (front ++ a :: back) s
      (.ok ⟨w.count, some (w.error.getD .shortWrite)⟩ s')
  | aborted {front back : List α} {a : α} {ws : List Wrote} {abort : Abort} {s t s' : σ}
    (hfront : front.mapM (write · data) s = .ok ws t) (hfull : ∀ w ∈ ws, w.IsFull data)
    (ha : write a data t = .error abort s') :
    Delivers write data (front ++ a :: back) s (.error abort s')

/-- A writer that accepts comes in front. -/
theorem Delivers.cons {writers : List α} {a : α} {w : Wrote} {s t : σ}
    {r : EStateM.Result Abort σ Wrote} (ha : write a data s = .ok w t) (hw : w.IsFull data)
    (h : Delivers write data writers t r) : Delivers write data (a :: writers) s r := by
  have hmapM : ∀ {as : List α} {ws : List Wrote} {t' : σ},
      as.mapM (write · data) t = .ok ws t' →
      (a :: as).mapM (write · data) s = .ok (w :: ws) t' := by
    intro as ws t' has
    rw [List.mapM_cons, Act.bind_ok ha, Act.bind_ok has]
    rfl
  cases h with
  | accepted hall hfull => exact .accepted (hmapM hall) (List.forall_mem_cons.mpr ⟨hw, hfull⟩)
  | refused hfront hfull hb hr =>
    exact .refused (hmapM hfront) (List.forall_mem_cons.mpr ⟨hw, hfull⟩) hb hr
  | aborted hfront hfull hb =>
    exact .aborted (hmapM hfront) (List.forall_mem_cons.mpr ⟨hw, hfull⟩) hb

theorem fanWrite_cons_of_isFull {a : α} {rest : List α} {w : Wrote} {s t : σ}
    (ha : write a data s = .ok w t) (hw : w.IsFull data) :
    fanWrite write (a :: rest) data s = fanWrite write rest data t := by
  have hcount := hw.2
  rw [fanWrite, Act.bind_ok ha, if_neg (by simp [hw.1]), if_neg (by omega)]

theorem fanWrite_cons_of_not_isFull {a : α} {rest : List α} {w : Wrote} {s t : σ}
    (ha : write a data s = .ok w t) (hw : ¬ w.IsFull data) :
    fanWrite write (a :: rest) data s = .ok ⟨w.count, some (w.error.getD .shortWrite)⟩ t := by
  obtain ⟨count, error⟩ := w
  rw [fanWrite, Act.bind_ok ha]
  cases error with
  | some e => rfl
  | none =>
    have hshort : count < data.length := by simpa [Wrote.IsFull] using hw
    rw [if_neg (by simp), if_pos hshort]
    rfl

theorem delivers_fanWrite (writers : List α) (s : σ) :
    Delivers write data writers s (fanWrite write writers data s) := by
  induction writers generalizing s with
  | nil => exact .accepted (show ([] : List α).mapM (write · data) s = .ok [] s from rfl) (by simp)
  | cons a rest ih =>
    have hfront : ([] : List α).mapM (write · data) s = .ok [] s := rfl
    cases ha : write a data s with
    | error abort t =>
      rw [fanWrite, Act.bind_error ha]
      exact .aborted hfront (by simp) ha
    | ok w t =>
      by_cases hw : w.IsFull data
      · rw [fanWrite_cons_of_isFull ha hw]
        exact (ih t).cons ha hw
      · rw [fanWrite_cons_of_not_isFull ha hw]
        exact .refused hfront (by simp) ha hw

/-- Writers that accept are passed by. -/
theorem fanWrite_of_mapM {front : List α} {ws : List Wrote} {s t : σ}
    (hfront : front.mapM (write · data) s = .ok ws t) (hfull : ∀ w ∈ ws, w.IsFull data)
    (back : List α) : fanWrite write (front ++ back) data s = fanWrite write back data t := by
  induction front generalizing ws s with
  | nil => cases hfront; rfl
  | cons a front ih =>
    rw [List.mapM_cons] at hfront
    obtain ⟨w, t₁, ha, hrest⟩ := Act.bind_eq_ok.mp hfront
    obtain ⟨ws', t₂, hmapM, hws⟩ := Act.bind_eq_ok.mp hrest
    cases hws
    obtain ⟨hw, hfull'⟩ := List.forall_mem_cons.mp hfull
    rw [List.cons_append, fanWrite_cons_of_isFull ha hw, ih hmapM hfull']

theorem fanWrite_eq_iff {writers : List α} {s : σ} {r : EStateM.Result Abort σ Wrote} :
    fanWrite write writers data s = r ↔ Delivers write data writers s r := by
  refine ⟨fun h => h ▸ delivers_fanWrite writers s, fun h => ?_⟩
  cases h with
  | accepted hall hfull =>
    have hpassed := fanWrite_of_mapM hall hfull []
    rwa [List.append_nil] at hpassed
  | refused hfront hfull ha hw =>
    rw [fanWrite_of_mapM hfront hfull, fanWrite_cons_of_not_isFull ha hw]
  | aborted hfront hfull ha =>
    rw [fanWrite_of_mapM hfront hfull, fanWrite, Act.bind_error ha]

/-- All bytes are reported without an error only if every writer accepted them. -/
theorem fanWrite_eq_ok_iff {writers : List α} {s s' : σ} :
    fanWrite write writers data s = .ok ⟨data.length, none⟩ s' ↔
      ∃ ws, writers.mapM (write · data) s = .ok ws s' ∧ ∀ w ∈ ws, w.IsFull data := by
  rw [fanWrite_eq_iff]
  constructor
  · intro h
    generalize hr : EStateM.Result.ok (⟨data.length, none⟩ : Wrote) s' = r at h
    cases h with
    | accepted hall hfull =>
      cases hr
      exact ⟨_, hall, hfull⟩
    | refused =>
      obtain ⟨hwrote, -⟩ := EStateM.Result.ok.inj hr
      cases (Wrote.mk.inj hwrote).2
    | aborted => cases hr
  · rintro ⟨ws, hall, hfull⟩
    exact .accepted hall hfull

end

/-! ## Joining -/

namespace Fan

variable {α σ : Type}

theorem spliced_ofWriters (writers : List α) : (ofWriters writers).spliced = writers.map lone := by
  match writers with
  | [] | [_] | _ :: _ :: _ => rfl

/-- Joining flat targets only needs the lists of their writers. -/
theorem join_map_ofWriters (lists : List (List α)) :
    join (lists.map ofWriters) = ofWriters lists.flatten := by
  have hspliced : (lists.map ofWriters).flatMap spliced = lists.flatten.map lone := by
    induction lists with
    | nil => rfl
    | cons writers lists ih =>
      rw [List.map_cons, List.flatMap_cons, ih, spliced_ofWriters, List.flatten_cons, List.map_append]
  unfold join
  rw [hspliced]
  match lists.flatten with
  | [] | [_] | _ :: _ :: _ => rfl

theorem writersAll_eq (members : List (Fan α)) : writersAll members = (members.map writers).flatten := by
  induction members with
  | nil => rfl
  | cons t rest ih => rw [writersAll, ih, List.map_cons, List.flatten_cons]

mutual

theorem joined_eq (nest : Fan α) : nest.joined = ofWriters nest.writers := by
  cases nest with
  | absent => rfl
  | lone a => rfl
  | several members =>
    rw [joined, joinedAll_map members, join_map_ofWriters, writers, writersAll_eq]

theorem joinedAll_map (members : List (Fan α)) :
    joinedAll members = (members.map writers).map ofWriters := by
  cases members with
  | nil => rfl
  | cons t rest => rw [joinedAll, joined_eq t, joinedAll_map rest, List.map_cons, List.map_cons]

end

/-- What is missing adds nothing. -/
theorem join_absent (front back : List (Fan α)) :
    join (front ++ absent :: back) = join (front ++ back) := by
  simp [join, spliced]

/-- Several nests may be joined first and then with others, or all at once. -/
theorem join_join (front group back : List (Fan α)) :
    join (front.map joined ++ join (group.map joined) :: back.map joined) =
      join ((front ++ group ++ back).map joined) := by
  have hmap : ∀ nests : List (Fan α), nests.map joined = (nests.map writers).map ofWriters := by
    intro nests
    rw [List.map_map]
    exact List.map_congr_left fun t _ => joined_eq t
  rw [hmap group, join_map_ofWriters, hmap front, hmap back, ← List.map_cons, ← List.map_append,
    join_map_ofWriters, hmap, join_map_ofWriters]
  simp

/-! ## Nests that are not joined -/

def isAbsent : Fan α → Bool
  | absent => true
  | _ => false

mutual

/-- A nest as it is, without what is missing in it. -/
def pruned : Fan α → Fan α
  | absent => absent
  | lone a => lone a
  | several members => several (prunedAll members)

def prunedAll : List (Fan α) → List (Fan α)
  | [] => []
  | t :: rest => if t.isAbsent then prunedAll rest else t.pruned :: prunedAll rest

end

section
variable {write₁ : α → Bytes → Act σ Wrote} {flush₁ : α → Act σ (Option Error)} {data : Bytes}

theorem writeAll_eq (members : List (Fan α)) :
    writeAll write₁ members data = fanWrite (Fan.write write₁) members data := by
  induction members with
  | nil => rfl
  | cons t rest ih => rw [writeAll, fanWrite, ih]

theorem flushAll_eq (members : List (Fan α)) :
    flushAll flush₁ members = attemptAll (Fan.flush flush₁) members := by
  induction members with
  | nil => rfl
  | cons t rest ih => rw [flushAll, attemptAll, ih]

mutual

/-- As a member of a fan, a nest does what its writers do as members. -/
theorem write_member {t : Fan α} (ht : t.isAbsent = false) :
    fanWrite (Fan.write write₁) [t.pruned] data = fanWrite write₁ t.writers data := by
  cases t with
  | absent => cases ht
  | lone a => rfl
  | several members =>
    have hmembers : Fan.write write₁ (several members).pruned data =
        fanWrite write₁ (writersAll members) data := by
      rw [pruned, write, writeAll_eq, write_members members]
    have hlone : fanWrite (Fan.write write₁) [(several members).pruned] data =
        fanWrite (fun _ => fanWrite write₁ (writersAll members)) [()] data := by
      simp only [fanWrite, hmembers]
    rw [hlone, fanWrite_fanWrite, writers]

theorem write_members (members : List (Fan α)) :
    fanWrite (Fan.write write₁) (prunedAll members) data =
      fanWrite write₁ (writersAll members) data := by
  cases members with
  | nil => rfl
  | cons t rest =>
    rw [prunedAll, writersAll]
    split
    · next ht =>
      cases t with
      | absent => exact write_members rest
      | lone a => cases ht
      | several members => cases ht
    · next ht =>
      rw [← List.singleton_append, fanWrite_append, fanWrite_append,
        write_member (Bool.eq_false_iff.mpr ht), write_members rest]

end

mutual

theorem flush_member {t : Fan α} (ht : t.isAbsent = false) :
    Fan.flush flush₁ t.pruned = attemptAll flush₁ t.writers := by
  cases t with
  | absent => cases ht
  | lone a => simp [pruned, flush, writers, attemptAll]
  | several members => rw [pruned, flush, flushAll_eq, flush_members members, writers]

theorem flush_members (members : List (Fan α)) :
    attemptAll (Fan.flush flush₁) (prunedAll members) = attemptAll flush₁ (writersAll members) := by
  cases members with
  | nil => rfl
  | cons t rest =>
    rw [prunedAll, writersAll]
    split
    · next ht =>
      cases t with
      | absent => exact flush_members rest
      | lone a => cases ht
      | several members => cases ht
    · next ht =>
      rw [attemptAll, attemptAll_append, flush_member (Bool.eq_false_iff.mpr ht), flush_members rest]

end

theorem write_ofWriters {writers : List α} (h : 2 ≤ writers.length) :
    (ofWriters writers).write write₁ data = fanWrite write₁ writers data := by
  match writers with
  | [] | [_] => simp at h
  | a :: b :: rest => exact (writeAll_eq _).trans (fanWrite_map lone (a :: b :: rest))

theorem flush_ofWriters {writers : List α} (h : 2 ≤ writers.length) :
    (ofWriters writers).flush flush₁ = attemptAll flush₁ writers := by
  match writers with
  | [] | [_] => simp at h
  | a :: b :: rest => exact (flushAll_eq _).trans (attemptAll_map lone (a :: b :: rest))

theorem write_pruned {nest : Fan α} (h : 2 ≤ nest.writers.length) :
    nest.pruned.write write₁ data = fanWrite write₁ nest.writers data := by
  cases nest with
  | absent => simp [writers] at h
  | lone a => simp [writers] at h
  | several members => rw [pruned, write, writeAll_eq, write_members, writers]

theorem flush_pruned {nest : Fan α} (h : 2 ≤ nest.writers.length) :
    nest.pruned.flush flush₁ = attemptAll flush₁ nest.writers := by
  cases nest with
  | absent => simp [writers] at h
  | lone a => simp [writers] at h
  | several members => rw [pruned, flush, flushAll_eq, flush_members, writers]

theorem callAll_congr {t u : Fan α} (hwrite : ∀ data, t.write write₁ data = u.write write₁ data)
    (hflush : t.flush flush₁ = u.flush flush₁) (calls : List Call) (s : σ) :
    t.callAll write₁ flush₁ calls s = u.callAll write₁ flush₁ calls s := by
  have hcall : ∀ c, t.call write₁ flush₁ c = u.call write₁ flush₁ c := by
    intro c
    cases c with
    | write data => exact hwrite data
    | flush => rw [call, call, hflush]
  induction calls generalizing s with
  | nil => rfl
  | cons c calls ih => simp only [callAll, hcall, ih]

end

end Fan

/-! ## Outlets -/

namespace Outlet

/-- An outlet is the fan of its writers. -/
def fan (o : Outlet) : Fan Writer := .ofWriters o

theorem fan_join (outlets : List Outlet) : (join outlets).fan = .join (outlets.map fan) :=
  (Fan.join_map_ofWriters outlets).symm

theorem fan_write (o : Outlet) (data : Bytes) : o.fan.write Writer.write data = o.write data := by
  match o with
  | [] | [_] => rfl
  | w :: v :: rest => exact Fan.write_ofWriters (by simp)

theorem fan_flush (o : Outlet) : o.fan.flush Writer.flush = o.flush := by
  match o with
  | [] | [_] => rfl
  | w :: v :: rest => exact Fan.flush_ofWriters (by simp)

end Outlet

/-- **Joining keeps what a nest does.** A nest of fans is joined to the flat target of its writers from
left to right: to nothing if there are none, to the writer itself if there is one, and otherwise to a
fan of just these writers. What is missing adds nothing, and grouping does not matter. If there are
several writers, whatever they return and however that depends on the state, a write asks them in turn
up to the first that does not accept it, and reports all bytes without an error only if each of them
accepted it; a flush asks each of them once and returns the first error; and calls of any kind in any
order come to what they come to on the nest itself, with its fans within fans. -/
theorem Fan.joined_behaves {α σ : Type} (write : α → Bytes → Act σ Wrote)
    (flush : α → Act σ (Option Error)) (nest : Fan α) :
    nest.joined = ofWriters nest.writers ∧
    (∀ front back : List (Fan α), join (front ++ absent :: back) = join (front ++ back)) ∧
    (∀ front group back : List (Fan α),
      join (front.map joined ++ join (group.map joined) :: back.map joined) =
        join ((front ++ group ++ back).map joined)) ∧
    (2 ≤ nest.writers.length →
      (∀ data s r, nest.joined.write write data s = r ↔ Delivers write data nest.writers s r) ∧
      (∀ data s s', nest.joined.write write data s = .ok ⟨data.length, none⟩ s' ↔
        ∃ ws, nest.writers.mapM (write · data) s = .ok ws s' ∧ ∀ w ∈ ws, w.IsFull data) ∧
      nest.joined.flush flush = (·.findSome? id) <$> nest.writers.mapM flush ∧
      ∀ calls s, nest.joined.callAll write flush calls s = nest.pruned.callAll write flush calls s) := by
  refine ⟨nest.joined_eq, join_absent, join_join, fun h => ?_⟩
  have hwrite : ∀ data, nest.joined.write write data = fanWrite write nest.writers data := by
    intro data
    rw [nest.joined_eq, write_ofWriters h]
  have hflush : nest.joined.flush flush = attemptAll flush nest.writers := by
    rw [nest.joined_eq, flush_ofWriters h]
  refine ⟨fun data s r => ?_, fun data s s' => ?_, ?_, fun calls s => ?_⟩
  · rw [hwrite, fanWrite_eq_iff]
  · rw [hwrite, fanWrite_eq_ok_iff]
  · rw [hflush, attemptAll_eq]
  · refine callAll_congr (fun data => ?_) ?_ calls s
    · rw [hwrite, write_pruned h]
    · rw [hflush, flush_pruned h]

/-- Between two sinks that take everything, one that takes a byte at a time. -/
def Host.narrowBetween : Host where
  sinks := #[{ kind := .memory },
    { kind := .memory, policy := { write := SinkLimits.reply { short := some 1 } } },
    { kind := .flushing }]

/-- Fans within fans, with something missing, for the three sinks. -/
def Fan.nestOfThree : Fan Writer :=
  .several [.several [.lone (.direct 0), .absent],
    .several [.several [], .several [.lone (.direct 1), .lone (.flushing 2)]]]

theorem Fan.joined_behaves_nestOfThree :
    2 ≤ nestOfThree.writers.length ∧
    nestOfThree.joined = .several [.lone (.direct 0), .lone (.direct 1), .lone (.flushing 2)] ∧
    (∃ h, nestOfThree.joined.write Writer.write (bytes "12") .narrowBetween =
        .ok ⟨1, some .shortWrite⟩ h ∧
      h.events = [.write 1 (bytes "1"), .write 0 (bytes "12")]) ∧
    nestOfThree.joined.callAll Writer.write Writer.flush [.write (bytes "12"), .flush] .narrowBetween =
      nestOfThree.pruned.callAll Writer.write Writer.flush [.write (bytes "12"), .flush]
        .narrowBetween := by
  have hseveral : 2 ≤ nestOfThree.writers.length := by decide
  obtain ⟨hjoined, -, -, hfan⟩ := joined_behaves Writer.write Writer.flush nestOfThree
  obtain ⟨hwrite, -, -, hcalls⟩ := hfan hseveral
  have hwriters : nestOfThree.writers = [.direct 0] ++ .direct 1 :: [.flushing 2] := rfl
  have hlength : (bytes "12").length = 2 := rfl
  obtain ⟨t, h, hfront, hmiddle, hevents⟩ : ∃ t h,
      [Writer.direct 0].mapM (·.write (bytes "12")) .narrowBetween = .ok [⟨2, none⟩] t ∧
      Writer.write (.direct 1) (bytes "12") t = .ok ⟨1, none⟩ h ∧
      h.events = [.write 1 (bytes "1"), .write 0 (bytes "12")] := ⟨_, _, rfl, rfl, rfl⟩
  have hdelivers : Delivers Writer.write (bytes "12") nestOfThree.writers .narrowBetween
      (.ok ⟨1, some .shortWrite⟩ h) := by
    rw [hwriters]
    exact .refused hfront (by simp [Wrote.IsFull, hlength]) hmiddle (by simp [Wrote.IsFull, hlength])
  exact ⟨hseveral, hjoined, ⟨h, (hwrite _ _ _).mpr hdelivers, hevents⟩, hcalls _ _⟩

end WordStack
