import WordStack.Text.Layout

/-!
# Message templates

A template is text with directives, each of which stands for an argument: a percent sign, flags, a
width, a precision, and a verb that says in which form the argument is written. `%v` writes any
argument plainly, `%s` a text, `%d` a number, and `%%` is a percent sign.

Arguments are taken in order, unless a directive chooses one by its number in brackets. A width or
precision may be an argument too, which is written `*`. A directive that cannot be filled is
reported in place, and arguments that no directive took are reported at the end, so that a wrong
template still gives a message. A message without arguments is no template and is taken as it is
(`message`).

* `fillFrom_append`: text without a percent sign is taken as it is.
* `fill_line`, `message_line`: a line of two texts behind an indentation.
-/
namespace WordStack.Template

/-- An argument of a template. -/
inductive Arg where
  | text (t : Bytes)
  | number (n : Int)
  deriving DecidableEq, Repr

namespace Arg

/-- The name of an argument's type, which is shown only when the template does not fit. -/
def kind : Arg → Bytes
  | text _ => bytes "string"
  | number _ => bytes "int"

/-- An argument in its plain form. -/
def plain (l : Layout) : Arg → Bytes
  | text t => if l.literal then l.quoted t else l.text t
  | number n => l.integer .decimal false n

/-- The kind and the plain form of an argument. -/
def described (l : Layout) (a : Arg) : Bytes := a.kind ++ bytes "=" ++ a.plain l

/-- An argument in the form that a verb asks for, if it has that form. -/
def form? (l : Layout) (verb : Char) (a : Arg) : Option Bytes :=
  match verb, a with
  | 'T', a => some (l.text a.kind)
  | 'v', a => some (a.plain l)
  | 's', text t => some (l.text t)
  | 'q', text t => some (l.quoted t)
  | 'x', text t => some (l.hexText false t)
  | 'X', text t => some (l.hexText true t)
  | 'd', number n => some (l.integer .decimal false n)
  | 'b', number n => some (l.integer .binary false n)
  | 'o', number n => some (l.integer .octal false n)
  | 'O', number n => some (l.integer .markedOctal false n)
  | 'x', number n => some (l.integer .hexadecimal false n)
  | 'X', number n => some (l.integer .hexadecimal true n)
  | 'c', number n => some (l.character n)
  | 'q', number n => some (l.quotedCharacter n)
  | 'U', number n => some (l.codePoint n)
  | _, _ => none

end Arg

/-- A report in place of a directive. -/
def complaint (verb reason : Bytes) : Bytes :=
  bytes "%!" ++ verb ++ bytes "(" ++ reason ++ bytes ")"

/-- The report of arguments that were not taken. -/
def leftover (args : List Arg) : Bytes :=
  if args.isEmpty then []
  else complaint [] (bytes "EXTRA " ++ joinWith (bytes ", ") (args.map (·.described {})))

/-- A directive while it is read. -/
structure Reading where
  /-- What is not read yet. -/
  rest : Bytes
  /-- The place of the argument to take. -/
  next : Nat
  /-- Whether an argument was chosen by its number so far, in this or an earlier directive. -/
  chosen : Bool
  layout : Layout := {}
  /-- Whether every number that chose an argument was right. -/
  good : Bool := true
  /-- Whether the latest thing read chose an argument. -/
  justChosen : Bool := false
  /-- Reports of a width or precision that was no number. -/
  reports : Bytes := []

namespace Reading

/-- The layout with a flag, if a byte is one. -/
def flag? (l : Layout) (b : UInt8) : Option Layout :=
  match b with
  | 35 => some { l with sharp := true }
  | 48 => some { l with zero := true }
  | 43 => some { l with plus := true }
  | 45 => some { l with minus := true }
  | 32 => some { l with space := true }
  | _ => none

/-- The flags at the front. -/
def flagsFrom (l : Layout) : Bytes → Layout × Bytes
  | [] => (l, [])
  | b :: rest =>
    match flag? l b with
    | some l' => flagsFrom l' rest
    | none => (l, b :: rest)

/-- Read flags. -/
def flags (r : Reading) : Reading :=
  let (layout, rest) := flagsFrom r.layout r.rest
  { r with layout, rest }

/-- The greatest number that counts as a width, a precision or a place. One more digit is let
through. -/
def limit : Nat := 1000000

/-- The number at the front, if there is one. A number far past the limit uses up everything. -/
def number (b : Bytes) : Option Nat × Bytes :=
  let ds := b.takeWhile Decimal.isDigit
  if ds.isEmpty then (none, b)
  else if limit < Decimal.value 0 ds.dropLast then (none, [])
  else (some (Decimal.value 0 ds), b.dropWhile Decimal.isDigit)

/-- The number between brackets, and what follows the closing one. A bracket that is not closed is
skipped by itself. -/
def bracketed (behind : Bytes) : Option Nat × Bytes :=
  let inside := behind.takeWhile (· != 93)
  match behind.dropWhile (· != 93) with
  | [] => (none, behind)
  | _ :: rest =>
    match number inside with
    | (some n, []) => (some n, rest)
    | _ => (none, rest)

/-- Read the choice of an argument, if there is one. Arguments are numbered from one. -/
def choice (count : Nat) (r : Reading) : Reading :=
  match r.rest with
  | 91 :: behind =>
    if behind.length < 2 then
      { r with rest := behind, chosen := true, justChosen := false, good := false }
    else
      match bracketed behind with
      | (some n, rest) =>
        if 1 ≤ n ∧ n ≤ count then { r with rest, next := n - 1, chosen := true, justChosen := true }
        else { r with rest, chosen := true, justChosen := true, good := false }
      | (none, rest) => { r with rest, chosen := true, justChosen := false, good := false }
  | _ => { r with justChosen := false }

/-- Take the next argument as a number that is not too large. -/
def takeNumber (args : List Arg) (r : Reading) : Option Int × Reading :=
  match args[r.next]? with
  | none => (none, r)
  | some a =>
    let value := match a with
      | .number n => if n.natAbs ≤ limit then some n else none
      | .text _ => none
    (value, { r with next := r.next + 1 })

/-- Read a width. A negative one is a width to be filled on the right. -/
def width (args : List Arg) (r : Reading) : Reading :=
  match r.rest with
  | 42 :: rest =>
    let (value, r) := takeNumber args { r with rest, justChosen := false }
    match value with
    | none => { r with reports := r.reports ++ complaint [] (bytes "BADWIDTH") }
    | some n =>
      let l := { r.layout with width := some n.natAbs }
      { r with layout := if n < 0 then { l with minus := true, zero := false } else l }
  | rest =>
    let (width, rest) := number rest
    { r with
      layout := { r.layout with width }, rest, good := r.good && !(r.justChosen && width.isSome) }

/-- Read a precision. -/
def precision (args : List Arg) (r : Reading) : Reading :=
  match r.rest with
  | 46 :: rest =>
    let r := choice args.length { r with rest, good := r.good && !r.justChosen }
    match r.rest with
    | 42 :: rest =>
      let (value, r) := takeNumber args { r with rest, justChosen := false }
      match value.filter (0 ≤ ·) with
      | none => { r with reports := r.reports ++ complaint [] (bytes "BADPREC") }
      | some n => { r with layout := { r.layout with precision := some n.toNat } }
    | rest =>
      let (p, rest) := number rest
      { r with layout := { r.layout with precision := some (p.getD 0) }, rest }
  | _ => r

/-- Read the choice of an argument in front of the verb, unless one was just read. -/
def lastChoice (count : Nat) (r : Reading) : Reading :=
  if r.justChosen then r else choice count r

/-- Read all that stands in front of a verb. -/
def head (args : List Arg) (r : Reading) : Reading :=
  lastChoice args.length (precision args (width args (choice args.length (flags r))))

theorem flagsFrom_length_le (l : Layout) (b : Bytes) : (flagsFrom l b).2.length ≤ b.length := by
  fun_induction flagsFrom l b with
  | case1 => exact Nat.le_refl _
  | case2 l b rest l' _ ih => exact Nat.le_trans ih (Nat.le_succ _)
  | case3 => exact Nat.le_refl _

theorem number_length_le (b : Bytes) : (number b).2.length ≤ b.length := by
  dsimp only [number]
  split
  · exact Nat.le_refl _
  · split
    · exact Nat.zero_le _
    · exact (List.dropWhile_suffix _).length_le

theorem bracketed_length_le (b : Bytes) : (bracketed b).2.length ≤ b.length := by
  have h : (b.dropWhile (· != 93)).length ≤ b.length := (List.dropWhile_suffix _).length_le
  dsimp only [bracketed]
  split
  · exact Nat.le_refl _
  · rename_i heq
    rw [heq, List.length_cons] at h
    split <;> exact Nat.le_of_succ_le h

theorem flags_length_le (r : Reading) : r.flags.rest.length ≤ r.rest.length :=
  flagsFrom_length_le r.layout r.rest

theorem choice_length_le (count : Nat) (r : Reading) :
    (choice count r).rest.length ≤ r.rest.length := by
  unfold choice
  split
  · rename_i behind heq
    rw [heq, List.length_cons]
    split
    · exact Nat.le_succ _
    · have h := bracketed_length_le behind
      split
      · rename_i heq'
        rw [heq'] at h
        split <;> exact Nat.le_succ_of_le h
      · rename_i heq'
        rw [heq'] at h
        exact Nat.le_succ_of_le h
  · exact Nat.le_refl _

theorem rest_takeNumber (args : List Arg) (r : Reading) :
    (takeNumber args r).2.rest = r.rest := by
  unfold takeNumber
  split <;> rfl

theorem width_length_le (args : List Arg) (r : Reading) :
    (width args r).rest.length ≤ r.rest.length := by
  unfold width
  split
  · rename_i rest heq
    have h := rest_takeNumber args { r with rest, justChosen := false }
    rw [heq, List.length_cons]
    dsimp only at h ⊢
    split
    · rw [h]; exact Nat.le_succ _
    · rw [h]; exact Nat.le_succ _
  · exact number_length_le _

theorem precision_length_le (args : List Arg) (r : Reading) :
    (precision args r).rest.length ≤ r.rest.length := by
  unfold precision
  split
  · rename_i rest heq
    have hc := choice_length_le args.length { r with rest, good := r.good && !r.justChosen }
    rw [heq, List.length_cons]
    dsimp only at hc ⊢
    split
    · rename_i rest' heq'
      have h := rest_takeNumber args
        { choice args.length { r with rest, good := r.good && !r.justChosen } with
          rest := rest', justChosen := false }
      rw [heq', List.length_cons] at hc
      dsimp only at h
      split <;> rw [h] <;> omega
    · have h := number_length_le
        (choice args.length { r with rest, good := r.good && !r.justChosen }).rest
      dsimp only
      omega
  · exact Nat.le_refl _

theorem lastChoice_length_le (count : Nat) (r : Reading) :
    (lastChoice count r).rest.length ≤ r.rest.length := by
  unfold lastChoice
  split
  · exact Nat.le_refl _
  · exact choice_length_le count r

theorem head_length_le (args : List Arg) (r : Reading) :
    (head args r).rest.length ≤ r.rest.length :=
  Nat.le_trans (lastChoice_length_le _ _) <| Nat.le_trans (precision_length_le _ _) <|
    Nat.le_trans (width_length_le _ _) <| Nat.le_trans (choice_length_le _ _) (flags_length_le r)

/-- The verb at the front, and what follows it. A byte that is part of no character counts as the
character that stands in place of such bytes. -/
def verb? (b : Bytes) : Option (Char × Bytes) :=
  match b with
  | [] => none
  | x :: tail => some ((Utf8.first? (x :: tail)).getD (Utf8.replacement, tail))

theorem verb?_length_lt {b rest : Bytes} {c : Char} (h : verb? b = some (c, rest)) :
    rest.length < b.length := by
  unfold verb? at h
  split at h
  · simp at h
  · rename_i x tail
    rw [Option.some.injEq] at h
    cases hf : Utf8.first? (x :: tail) with
    | none =>
      rw [hf, Option.getD_none] at h
      rw [← (Prod.mk.inj h).2]
      exact Nat.lt_succ_self _
    | some p =>
      rw [hf, Option.getD_some] at h
      exact Utf8.length_lt_of_first? (h ▸ hf)

end Reading

/-- The layout of a verb: the plain form has a literal in place of its other form, and no sign in
front of positive numbers. -/
def layoutFor (verb : Char) (l : Layout) : Layout :=
  if verb = 'v' ∨ verb = 'w' then { l with literal := l.sharp, sharp := false, plus := false }
  else l

/-- What a directive gives once it is read, and whether it took the next argument. -/
def directive (args : List Arg) (r : Reading) (verb : Char) : Bytes × Bool :=
  let name := Utf8.encode verb
  if verb = '%' then (bytes "%", false)
  else if !r.good then (complaint name (bytes "BADINDEX"), false)
  else
    match args[r.next]? with
    | none => (complaint name (bytes "MISSING"), false)
    | some a =>
      let l := layoutFor verb r.layout
      ((a.form? l verb).getD (complaint name (a.described l)), true)

/-- A template with its directives filled in, from the argument at some place on. -/
def fillFrom (args : List Arg) (next : Nat) (chosen : Bool) (template : Bytes) : Bytes :=
  match template with
  | [] => if chosen then [] else leftover (args.drop next)
  | b :: tail =>
    if b ≠ 37 then b :: fillFrom args next chosen tail
    else
      let r := Reading.head args { rest := tail, next, chosen }
      match _h : Reading.verb? r.rest with
      | none =>
        r.reports ++ complaint [] (bytes "NOVERB") ++
          (if r.chosen then [] else leftover (args.drop r.next))
      | some (verb, rest) =>
        let (text, took) := directive args r verb
        r.reports ++ text ++ fillFrom args (if took then r.next + 1 else r.next) r.chosen rest
termination_by template.length
decreasing_by
  · exact Nat.lt_succ_self _
  · exact Nat.lt_succ_of_lt
      (Nat.lt_of_lt_of_le (Reading.verb?_length_lt _h) (Reading.head_length_le args _))

/-- A template with its directives filled in from the arguments. -/
def fill (template : Bytes) (args : List Arg) : Bytes := fillFrom args 0 false template

theorem fillFrom_append (args : List Arg) (next : Nat) (chosen : Bool) {front : Bytes}
    (h : 37 ∉ front) (rest : Bytes) :
    fillFrom args next chosen (front ++ rest) = front ++ fillFrom args next chosen rest := by
  induction front with
  | nil => rfl
  | cons b front ih =>
    have hb : b ≠ 37 := fun e => h (e ▸ List.mem_cons_self)
    rw [List.cons_append, fillFrom, if_pos hb, ih fun hm => h (List.mem_cons_of_mem _ hm),
      List.cons_append]

/-- A plain directive gives a text as it is. -/
theorem fillFrom_plain (args : List Arg) (next : Nat) (chosen : Bool) (rest : Bytes) {t : Bytes}
    (h : args[next]? = some (.text t)) :
    fillFrom args next chosen (37 :: 118 :: rest) = t ++ fillFrom args (next + 1) chosen rest := by
  have hfirst : Utf8.first? (118 :: rest) = some ('v', rest) :=
    Utf8.first?_encode_append 'v' rest
  have hhead : Reading.head args { rest := 118 :: rest, next, chosen } =
      { rest := 118 :: rest, next, chosen } := rfl
  have hverb : Reading.verb? (118 :: rest) = some ('v', rest) := by
    rw [Reading.verb?, hfirst, Option.getD_some]
  rw [fillFrom, if_neg (by decide), hhead]
  dsimp only
  split
  · rename_i heq
    rw [hverb] at heq
    cases heq
  · rename_i heq
    rw [hverb] at heq
    cases heq
    simp [directive, h, layoutFor, Arg.form?, Arg.plain]

/-- A line of two texts behind an indentation that has no directive in it. -/
theorem fill_line {indent : Bytes} (h : 37 ∉ indent) (a b : Bytes) :
    fill (indent ++ bytes "%v %v") [.text a, .text b] = indent ++ a ++ bytes " " ++ b := by
  have hline : bytes "%v %v" = [37, 118, 32, 37, 118] := by decide +kernel
  have hblank : bytes " " = [32] := by decide +kernel
  rw [fill, fillFrom_append _ _ _ h, hline, hblank, fillFrom_plain _ _ _ _ rfl, fillFrom,
    if_pos (by decide), fillFrom_plain _ _ _ _ rfl, fillFrom]
  simp [leftover]

/-- A message: a template if there are arguments, else the text itself. -/
def message (text : Bytes) (args : List Arg) : Bytes :=
  if args.isEmpty then text else fill text args

theorem message_line {indent : Bytes} (h : 37 ∉ indent) (a b : Bytes) :
    message (indent ++ bytes "%v %v") [.text a, .text b] = indent ++ a ++ bytes " " ++ b := by
  rw [message, if_neg (by simp), fill_line h]

end WordStack.Template
