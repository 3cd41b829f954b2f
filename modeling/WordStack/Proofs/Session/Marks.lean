import WordStack.Proofs.Session.Notes
import WordStack.Proofs.Session.Upkeep
import WordStack.Session.Setting

/-!
# The width of marks

Every entry of the log stands behind a mark. The session remembers how many bytes the widest mark so
far takes, and fills a mark that is shorter by repeating its first character, once for each byte that
is missing. So all lines have marks of one width as long as those that are filled begin with a
character of one byte. A longer first character is repeated too often.

* `Logger.Literal.send_line`: what a logger is sent goes as it stands.
* `Session.logAll_keeps`: sequences of entries leave the width of the widest mark.
* `Session.Filled`: a mark that is filled up to a width. `Session.filled_padMark_iff`: when it is.
* `Session.Enters`: what comes of one line. `Session.logAll_lines`: all lines of a sequence of entries.
* `log_fills_marks`: the line of an entry behind any others. `log_overfills`: a mark filled too far.
-/
namespace WordStack

open Act (stateOf)

namespace Utf8

/-- A text that is not empty begins with a character. -/
theorem exists_first?_eq_some {b : Bytes} (hne : b ≠ []) (hvalid : isValid b = true) :
    ∃ first rest, first? b = some (first, rest) := by
  have hall := decode_append b
  rw [List.isEmpty_iff.mp hvalid, List.append_nil] at hall
  cases hchars : (decode b).1 with
  | nil => exact absurd (by rw [← hall, hchars]; rfl) hne
  | cons first chars =>
    refine ⟨first, encodeAll chars, first?_eq_some_iff.mpr ?_⟩
    rw [← hall, hchars]
    rfl

theorem encode_append_inj {first first' : Char} {rest rest' : Bytes}
    (h : encode first ++ rest = encode first' ++ rest') : first = first' ∧ rest = rest' := by
  have hboth := first?_encode_append first rest
  rw [h, first?_encode_append] at hboth
  cases hboth
  exact ⟨rfl, rfl⟩

end Utf8

/-! ## Lines as they stand -/

namespace Logger

/-- There is a logger, and what it puts in front of its lines has no directive in it. -/
def Literal : Logger → Prop
  | absent => False
  | recorder _ | journal _ => True
  | indented text inner => 37 ∉ text ∧ inner.Literal

variable {l : Logger}

theorem Literal.isPresent (hl : l.Literal) : l.isPresent = true := by
  cases l with
  | absent => cases hl
  | recorder _ => rfl
  | journal _ => rfl
  | indented _ _ => rfl

/-- Two texts of a line are sent as one text with a blank in it. -/
theorem Literal.send_line (hl : l.Literal) {indent : Bytes} (hindent : 37 ∉ indent) (a b : Bytes) :
    l.send (indent ++ bytes "%v %v") [.text a, .text b] =
      l.send (indent ++ a ++ bytes " " ++ b) [] := by
  have hline := Template.message_line hindent a b
  induction l generalizing indent with
  | absent => cases hl
  | recorder place => rw [send, hline]; rfl
  | journal level => simp only [send, Host.report, hline]; rfl
  | indented text inner ih =>
    have hboth : 37 ∉ text ++ indent := by simp [hl.1, hindent]
    have hinner := ih hl.2 hboth (Template.message_line hboth a b)
    simp only [List.append_assoc] at hinner ⊢
    exact hinner

end Logger

namespace Session

variable {s : Session}

/-! ## Entries -/

/-- An entry of the log: a mark, and a message. -/
structure Entry where
  mark : Bytes
  template : Bytes
  args : List Template.Arg := []

namespace Entry

/-- The text behind the mark. -/
def text (e : Entry) : Bytes := Template.message e.template e.args

/-- Make an entry. -/
def log (e : Entry) : M Unit := Session.log e.mark e.text

end Entry

/-- The session behind a sequence of entries. One that crashes does not keep others from being made. -/
def logAll (entries : List Entry) (s : Session) : Session :=
  entries.foldl (fun s e => stateOf (e.log s)) s

/-- How many bytes the widest mark takes. -/
def widest (entries : List Entry) : Nat := (entries.map (·.mark.length)).foldr max 0

theorem widest_concat (before : List Entry) (e : Entry) :
    widest (before ++ [e]) = max (widest before) e.mark.length := by
  induction before with
  | nil => exact Nat.max_comm _ _
  | cons first before ih =>
    show max first.mark.length (widest (before ++ [e])) = _
    rw [ih, ← Nat.max_assoc]
    rfl

theorem stateOf_log (hl : s.logger.isPresent = true) (e : Entry) :
    (stateOf (e.log s)).logger = s.logger ∧
      (stateOf (e.log s)).markWidth = max s.markWidth e.mark.length := by
  rw [Entry.log, log_eq, if_pos hl, stateOf_onHost]
  exact ⟨rfl, rfl⟩

/-- By induction on the entries: each leaves the logger, and the greater one of two widths. -/
theorem logAll_keeps (hl : s.logger.isPresent = true) (entries : List Entry) :
    (logAll entries s).logger = s.logger ∧
      (logAll entries s).markWidth = max s.markWidth (widest entries) := by
  induction entries generalizing s with
  | nil => exact ⟨rfl, (Nat.max_zero _).symm⟩
  | cons e entries ih =>
    obtain ⟨hlogger, hwidth⟩ := stateOf_log hl e
    obtain ⟨hlogger', hwidth'⟩ := ih (hlogger.symm ▸ hl)
    refine ⟨hlogger'.trans hlogger, ?_⟩
    show (logAll entries (stateOf (e.log s))).markWidth = max s.markWidth (max _ (widest entries))
    rw [hwidth', hwidth, Nat.max_assoc]

/-! ## Filled marks -/

/-- Copies of its first character stand in front of the mark, and all together takes so many bytes. -/
def Filled (width : Nat) (mark filled : Bytes) : Prop :=
  ∃ first rest n, mark = Utf8.encode first ++ rest ∧
    filled = (List.replicate n (Utf8.encode first)).flatten ++ mark ∧ filled.length = width

/-- A mark need not be filled up to its own width. -/
theorem padMark_max (width : Nat) (mark : Bytes) :
    padMark (max width mark.length) mark = padMark width mark := by
  cases mark with
  | nil => rfl
  | cons x tail =>
    have hmissing : max width (x :: tail).length - (x :: tail).length =
        width - (x :: tail).length := by omega
    simp only [padMark, hmissing]

section
variable {mark rest : Bytes} {first : Char}
  (hfirst : Utf8.first? mark = some (first, rest))

include hfirst

/-- Every byte that is missing costs a whole character. -/
theorem length_padMark (width : Nat) :
    (padMark width mark).length = (width - mark.length) * first.utf8Size + mark.length := by
  rw [padMark_of_first? hfirst, List.length_append, List.length_flatten, List.map_replicate,
    List.sum_replicate_nat, Utf8.length_encode]

theorem filled_padMark_iff {width : Nat} (hle : mark.length ≤ width) :
    Filled width mark (padMark width mark) ↔ first.utf8Size = 1 ∨ mark.length = width := by
  have hlength := length_padMark hfirst width
  constructor
  · rintro ⟨-, -, -, -, -, hwidth⟩
    rcases Nat.eq_or_lt_of_le hle with heq | hlt
    · exact .inr heq
    · have hsame : (width - mark.length) * first.utf8Size = width - mark.length := by omega
      exact .inl ((Nat.mul_eq_left (by omega)).mp hsame)
  · intro hfits
    refine ⟨first, rest, width - mark.length, Utf8.eq_append_of_first? hfirst,
      padMark_of_first? hfirst width, ?_⟩
    rcases hfits with hone | heq
    · rw [hlength, hone]; omega
    · rw [hlength, heq, Nat.sub_self, Nat.zero_mul, Nat.zero_add]

end

/-! ## One line -/

/-- What comes of a line, when marks have the width `width` behind it: the logger is sent it as it
stands, and a recorder logs it, unless it crashes at this call. -/
structure Enters (line : Bytes) (width : Nat) (s : Session) (r : EStateM.Result Abort Session Unit) :
    Prop where
  sent : r = onHost (s.logger.send line []) { s with markWidth := width }
  width : (stateOf r).markWidth = width
  recorded : ∀ place, s.logger = .recorder place →
    (∃ s', r = .ok () s' ∧ s'.host.lines = s.host.lines ++ [line]) ∨
    ∃ recorder value s', s.host.recorders[place]? = some recorder ∧
      recorder.crash (recorder.calls + 1) = some value ∧
      r = .error (.crash (.text value)) s' ∧ s'.host.lines = s.host.lines

theorem enters_of_sent {line : Bytes} {width : Nat} {r : EStateM.Result Abort Session Unit}
    (hsent : r = onHost (s.logger.send line []) { s with markWidth := width }) :
    Enters line width s r := by
  refine ⟨hsent, ?_, fun place hplace => ?_⟩
  · rw [hsent, stateOf_onHost]
  · have hsend : s.logger.send line [] = Host.record place line := by rw [hplace]; rfl
    rw [hsend] at hsent
    rcases Host.record_cases place line s.host with
      ⟨h, hrecord, hlines⟩ | ⟨recorder, value, h, hr, hcrash, hrecord, hlines⟩
    · refine .inl ⟨{ s with markWidth := width, host := h }, ?_, hlines⟩
      rw [hsent]
      simp only [onHost, Act.zoom, hrecord]
    · refine .inr ⟨recorder, value, { s with markWidth := width, host := h }, hr, hcrash, ?_, hlines⟩
      rw [hsent]
      simp only [onHost, Act.zoom, hrecord]

/-- An entry is one line, and the width is that of its mark if no mark before was wider. -/
theorem log_enters (hl : s.logger.Literal) (e : Entry) :
    Enters (padMark (max s.markWidth e.mark.length) e.mark ++ bytes " " ++ e.text)
      (max s.markWidth e.mark.length) s (e.log s) := by
  refine enters_of_sent ?_
  have hline := hl.send_line List.not_mem_nil (padMark s.markWidth e.mark) e.text
  simp only [List.nil_append] at hline
  rw [Entry.log, log_eq, if_pos hl.isPresent, padMark_max, hline]

/-! ## All lines -/

/-- The lines of entries, where marks take `width` bytes so far. -/
def entryLines (width : Nat) : List Entry → List Bytes
  | [] => []
  | e :: entries =>
    (padMark (max width e.mark.length) e.mark ++ bytes " " ++ e.text) ::
      entryLines (max width e.mark.length) entries

section
variable {place : Nat} (hlogger : s.logger = .recorder place)
  (hcalm : ∀ crash, s.host.crash? place = some crash → ∀ n, crash n = none)

include hlogger hcalm

theorem log_lines (e : Entry) : ∃ s', e.log s = .ok () s' ∧ s'.logger = s.logger ∧
    s'.markWidth = max s.markWidth e.mark.length ∧ s'.host.crash? = s.host.crash? ∧
    s'.host.lines = s.host.lines ++
      [padMark (max s.markWidth e.mark.length) e.mark ++ bytes " " ++ e.text] := by
  have hliteral : s.logger.Literal := by rw [hlogger]; trivial
  have hsent := (log_enters hliteral e).sent
  generalize padMark (max s.markWidth e.mark.length) e.mark ++ bytes " " ++ e.text = line at hsent ⊢
  obtain ⟨h, hrecord, hlines, hcrashes⟩ := Host.record_adds hcalm line
  have hsend : s.logger.send line [] = Host.record place line := by rw [hlogger]; rfl
  refine ⟨{ s with markWidth := max s.markWidth e.mark.length, host := h }, ?_, rfl, rfl, hcrashes,
    hlines⟩
  rw [hsent, hsend]
  simp only [onHost, Act.zoom, hrecord]

/-- By induction on the entries: a recorder that never crashes logs a line for each. -/
theorem logAll_lines (entries : List Entry) :
    (logAll entries s).host.lines = s.host.lines ++ entryLines s.markWidth entries := by
  induction entries generalizing s with
  | nil => exact (List.append_nil _).symm
  | cons e entries ih =>
    obtain ⟨s', hlog, hkept, hwidth, hcrashes, hlines⟩ := log_lines hlogger hcalm e
    have hrest := ih (hkept.trans hlogger) (by rw [hcrashes]; exact hcalm)
    show (logAll entries (stateOf (e.log s))).host.lines = _
    rw [hlog, entryLines, List.append_cons, ← hlines, ← hwidth]
    exact hrest

end

end Session

open Session

/-- **A mark is filled up to the width of the widest one if its first character takes one byte.** Let
a session have a logger, and let no mark have been logged. Whatever entries were made before, and
whether their lines were logged or not, an entry whose mark is a text that is not empty sends one line
and leaves the width of the widest mark so far. The line begins with the first character of the mark,
once for each byte that the mark is shorter than that width, and goes on with the mark, a blank and the
text of the entry. In front of the blank the line takes just the width if the first character takes one
byte or the mark itself is the widest, and only then. -/
theorem log_fills_marks {s : Session} (hlogger : s.logger.Literal) (hnew : s.markWidth = 0)
    (before : List Entry) (e : Entry) (hne : e.mark ≠ []) (hvalid : Utf8.isValid e.mark = true) :
    let u := logAll before s
    let width := widest (before ++ [e])
    ∃ first rest filled, e.mark = Utf8.encode first ++ rest ∧
      filled = (List.replicate (width - e.mark.length) (Utf8.encode first)).flatten ++ e.mark ∧
      (Filled width e.mark filled ↔ first.utf8Size = 1 ∨ e.mark.length = width) ∧
      u.logger = s.logger ∧ Enters (filled ++ bytes " " ++ e.text) width u (e.log u) := by
  intro u width
  obtain ⟨first, rest, hfirst⟩ := Utf8.exists_first?_eq_some hne hvalid
  obtain ⟨hkept, hwidth⟩ := logAll_keeps hlogger.isPresent before
  have hmax : max u.markWidth e.mark.length = width := by
    rw [hwidth, hnew, Nat.zero_max]
    exact (widest_concat before e).symm
  have henters : Enters _ _ u (e.log u) := log_enters (hkept.symm ▸ hlogger) e
  rw [hmax] at henters
  have hle : e.mark.length ≤ width := hmax ▸ Nat.le_max_right _ _
  exact ⟨first, rest, padMark width e.mark, Utf8.eq_append_of_first? hfirst,
    padMark_of_first? hfirst width, filled_padMark_iff hfirst hle, hkept, henters⟩

/-- A mark of five bytes. -/
def Session.Entry.wide : Entry := { mark := bytes "#####", template := bytes "wide" }

/-- A mark of three bytes, of which the first character takes two. -/
def Session.Entry.accented : Entry := { mark := bytes "é!", template := bytes "narrow" }

/-- A mark of two bytes. -/
def Session.Entry.short : Entry := { mark := bytes "ab", template := bytes "done" }

/-- A session whose recorder crashes at the first line. -/
def Session.forgetful : Session where
  logger := .recorder 0
  host := { recorders := #[{ crash := fun n => if n = 1 then some (bytes "full") else none }] }

/-- The widest mark counts although its line is lost. -/
theorem log_fills_marks_forgetful :
    (stateOf (Entry.short.log (logAll [.wide, .accented] .forgetful))).host.lines =
      (logAll [.wide, .accented] .forgetful).host.lines ++ [bytes "aaaab done"] ∧
    Filled 5 (bytes "ab") (bytes "aaaab") ∧
    (stateOf (Entry.short.log (logAll [.wide, .accented] .forgetful))).markWidth = 5 := by
  obtain ⟨first, rest, filled, hmark, hfilled, hfits, -, henters⟩ :=
    log_fills_marks (s := .forgetful) trivial rfl [.wide, .accented] .short (by decide)
      (by decide +kernel)
  have hletter : Entry.short.mark = Utf8.encode 'a' ++ bytes "b" := by decide +kernel
  obtain ⟨rfl, -⟩ := Utf8.encode_append_inj (hmark.symm.trans hletter)
  have hfive : filled = bytes "aaaab" := hfilled.trans (by decide +kernel)
  rw [hfive] at hfits henters
  refine ⟨?_, hfits.mpr (.inl (by decide)), henters.width⟩
  rcases henters.recorded 0 rfl with ⟨s', hlog, hlines⟩ | ⟨recorder, value, -, hr, hcrash, -, -⟩
  · rw [hlog]
    exact hlines
  · have hcalm : ((logAll [.wide, .accented] .forgetful).host.recorders[0]?.bind
        fun r => r.crash (r.calls + 1)) = none := by decide +kernel
    rw [hr, Option.bind_some, hcrash] at hcalm
    cases hcalm

/-- Two bytes are missing in front of `é!`, and two characters of two bytes each are put there. The
line does not begin with the mark as it would be filled up to five bytes. -/
theorem log_overfills : ∃ s : Session,
    Session.new [.single (.logger (.recorder 0))] { recorders := #[{}] } = .ok () s ∧
    s.markWidth = 0 ∧ widest [.wide, .accented] = 5 ∧
    (logAll [.wide, .accented] s).host.lines = [bytes "##### wide", bytes "ééé! narrow"] ∧
    (∀ filled, Filled 5 Entry.accented.mark filled ↔ filled = bytes "éé!") ∧
    ¬ bytes "éé!" <+: bytes "ééé! narrow" := by
  refine ⟨_, rfl, rfl, by decide +kernel, ?_, fun filled => ?_, by decide +kernel⟩
  · rw [logAll_lines rfl (by intro crash h n; cases h; rfl)]
    decide +kernel
  have hletter : Entry.accented.mark = Utf8.encode 'é' ++ bytes "!" := by decide +kernel
  constructor
  · rintro ⟨first, rest, n, hmark, rfl, hlength⟩
    obtain ⟨rfl, -⟩ := Utf8.encode_append_inj (hmark.symm.trans hletter)
    have hsize : (Utf8.encode 'é').length = 2 := by decide +kernel
    have hthree : Entry.accented.mark.length = 3 := by decide +kernel
    have hone : n = 1 := by
      rw [List.length_append, List.length_flatten, List.map_replicate, List.sum_replicate_nat,
        hsize, hthree] at hlength
      omega
    subst hone
    decide +kernel
  · rintro rfl
    exact ⟨'é', bytes "!", 1, hletter, by decide +kernel, by decide +kernel⟩

end WordStack
