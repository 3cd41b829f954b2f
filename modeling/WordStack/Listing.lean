import WordStack.Program
import WordStack.Text.Width

/-!
# Program listings

A listing shows a program as a table: one row for each instruction, with its position, operation,
payload and jump target, between a header and a footer with the number of instructions. Every
column is as wide as its widest cell. Numbers stand to the right, texts to the left; a column
counts as numbers if it holds no text, so in an empty listing all of them stand to the right.

A plain listing has lines drawn around its cells. A coloured one has none: its cells have a
background instead, which alternates from row to row.

What is in the cells is up to the program. How they are drawn is up to the table renderer that it
uses: `render`, with the lines, colours and widths below, stands in for that renderer as far as this
table needs it. No result depends on how a table is drawn.
-/
namespace WordStack.Listing

/-- The part of a table that a row belongs to. -/
inductive Part where
  | header
  /-- A row of the body, with its number. -/
  | body (index : Nat)
  | footer
  deriving DecidableEq, Repr

/-- The cells of the header. -/
def header : List Bytes := [bytes "@", bytes "op", bytes "arg", bytes "target"]

/-- The cells of an instruction. -/
def row (p : Program) (position : Nat) (i : Instruction) : List Bytes :=
  [Decimal.ofNat position, i.op.name, i.argument,
    match p.target? position with
    | some t => bytes "@" ++ Decimal.ofInt t
    | none => []]

/-- The cells of the footer. -/
def footer (p : Program) : List Bytes :=
  [[], [], [], Decimal.ofNat p.size ++ bytes " instructions"]

/-- All rows in order. -/
def rows (p : Program) : List (Part × List Bytes) :=
  [(.header, header)] ++
    p.code.toList.mapIdx (fun position i => (.body position, row p position i)) ++
    [(.footer, footer p)]

/-- The widths of the columns. -/
def widths (rows : List (List Bytes)) : List Nat :=
  rows.foldl (fun ws cells => List.zipWith max ws (cells.map Width.ofBytes)) [0, 0, 0, 0]

/-- Whether each column stands to the right. -/
def toRight (p : Program) : List Bool := [true, true, p.size == 0, p.size == 0]

/-- A cell filled up with spaces to a width, with a space on both sides. -/
def pad (width : Nat) (right : Bool) (cell : Bytes) : Bytes :=
  let space := List.replicate (width - Width.ofBytes cell) (32 : UInt8)
  bytes " " ++ (if right then space ++ cell else cell ++ space) ++ bytes " "

/-- The cells of a row, padded. -/
def padded (ws : List Nat) (right : List Bool) (cells : List Bytes) : List Bytes :=
  (ws.zip (right.zip cells)).map fun (w, r, c) => pad w r c

/-- A drawn line between rows. -/
def rule (left middle right : String) (ws : List Nat) : Bytes :=
  bytes left ++
    joinWith (bytes middle) (ws.map fun w => (List.replicate (w + 2) (bytes "─")).flatten) ++
    bytes right ++ bytes "\n"

/-- A row between drawn lines. -/
def ruledRow (cells : List Bytes) : Bytes :=
  bytes "│" ++ joinWith (bytes "│") cells ++ bytes "│" ++ bytes "\n"

/-- The terminal codes of the background of a part. -/
def colour : Part → Bytes
  | .header => bytes "106;30"
  | .body index => if index % 2 = 0 then bytes "107;30" else bytes "47;30"
  | .footer => bytes "46;30"

/-- A row of cells on a background. -/
def colouredRow (part : Part) (cells : List Bytes) : Bytes :=
  (cells.map fun c =>
    bytes "\x1b[" ++ colour part ++ bytes "m" ++ c ++ bytes "\x1b[0m").flatten ++ bytes "\n"

/-- The listing of a program. -/
def render (p : Program) (coloured : Bool) : Bytes :=
  let all := rows p
  let ws := widths (all.map (·.2))
  let right := toRight p
  if coloured then
    (all.map fun (part, cells) => colouredRow part (padded ws right cells)).flatten
  else
    let separator := rule "├" "┼" "┤" ws
    rule "┌" "┬" "┐" ws ++
      (all.map fun (part, cells) =>
        (if part = .footer then separator else []) ++ ruledRow (padded ws right cells) ++
          (if part = .header then separator else [])).flatten ++
      rule "└" "┴" "┘" ws

end WordStack.Listing
