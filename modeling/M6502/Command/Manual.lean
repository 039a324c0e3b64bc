import M6502.Text.Numeral

/-!
# Manuals

A manual names a command, says in a line how it is used, and lists its
subcommands, operands and options, the explanations one below the other or,
where they are too long for that, below their labels. How a command is used
is also part of the answer to a refused command line.
-/

set_option autoImplicit false

namespace M6502

open Text

structure Explained where
  label : String
  about : String
  deriving DecidableEq, Repr

structure Manual where
  title : String
  about : String
  hasOptions : Bool
  needed : List String
  commands : List Explained
  operands : List Explained
  options : List Explained
  deriving DecidableEq, Repr

namespace Manual

def usage (m : Manual) : String :=
  String.intercalate " " <|
    m.title :: (if m.hasOptions then ["[OPTIONS]"] else []) ++ m.needed ++
      m.operands.map (·.label) ++ if m.commands.isEmpty then [] else ["<COMMAND>"]

def width : List Explained → Nat
  | [] => 0
  | l :: lines => max l.label.length (width lines)

theorem length_le_width {lines : List Explained} {l : Explained} (h : l ∈ lines) :
    l.label.length ≤ width lines := by
  induction lines with
  | nil => contradiction
  | cons k lines ih =>
    rcases List.mem_cons.1 h with rfl | h
    · exact Nat.le_max_left ..
    · exact Nat.le_trans (ih h) (Nat.le_max_right ..)

def columns : Nat := 100

/-- Whether the explanations go below their labels: these take more than two fifths of the page
and leave too little room for one of the explanations. -/
def isTall (lines : List Explained) : Bool :=
  let taken := width lines + 12
  2 * columns < 5 * taken && lines.any fun l => columns < taken + l.about.length

def part (heading : String) (lines : List Explained) : List String :=
  let line (l : Explained) : String :=
    if isTall lines then "  " ++ l.label ++ "\n          " ++ l.about ++ "\n"
    else "  " ++ padRight (width lines) l.label ++ "  " ++ l.about ++ "\n"
  if lines.isEmpty then [] else [heading ++ ":\n" ++ String.join (lines.map line)]

def page (m : Manual) : String :=
  String.intercalate "\n" <|
    [m.about ++ "\n", "Usage: " ++ m.usage ++ "\n"] ++ part "Commands" m.commands ++
      part "Arguments" m.operands ++ part "Options" m.options

end Manual

end M6502
