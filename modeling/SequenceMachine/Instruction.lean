import SequenceMachine.Index
import SequenceMachine.Text

namespace SequenceMachine

structure Register where
  number : Nat
deriving DecidableEq

def Register.text (r : Register) : String := s!"%{r.number}"

inductive Instruction where
  | loadInt (dst : Register) (val : Int)
  | loadStr (dst : Register) (val : String)
  /-- Stores a new sequence of `length` copies of nothing. -/
  | newSeq (dst : Register) (length : Nat) (mode : Mode)
  | collect (dst : Register) (srcs : List Register) (mode : Mode)
  | len (dst seq : Register)
  | index (dst seq index : Register)
  | setIndex (seq index src : Register)
  /-- Stores a slice as a new sequence. -/
  | slice (dst seq left right : Register)
  | setSlice (seq left right src : Register)
  | push (seq src : Register)
  | release (seq : Register)
  | ret (src : Register)
deriving DecidableEq

abbrev Program : Type := List Instruction

namespace Instruction

def returned? : Instruction → Option Register
  | .ret src => some src
  | _ => none

def registerText (r : Register) : String := s!"RegId({r.number})"

def registersText (rs : List Register) : String :=
  "[" ++ ", ".intercalate (rs.map registerText) ++ "]"

def modeText (m : Mode) : String := if m = .cyclic then "true" else "false"

def form : Instruction → String × List (String × String)
  | .loadInt dst val => ("LoadInt", [("dst", registerText dst), ("val", toString val)])
  | .loadStr dst val => ("LoadStr", [("dst", registerText dst), ("val", Text.quote val)])
  | .newSeq dst length mode =>
    ("NewSeq", [("dst", registerText dst), ("len", toString length), ("cyclic", modeText mode)])
  | .collect dst srcs mode =>
    ("Collect", [("dst", registerText dst), ("srcs", registersText srcs), ("cyclic", modeText mode)])
  | .len dst seq => ("Len", [("dst", registerText dst), ("seq", registerText seq)])
  | .index dst seq place =>
    ("Index", [("dst", registerText dst), ("seq", registerText seq), ("index", registerText place)])
  | .setIndex seq place src =>
    ("SetIndex", [("seq", registerText seq), ("index", registerText place), ("src", registerText src)])
  | .slice dst seq left right =>
    ("Slice", [("dst", registerText dst), ("seq", registerText seq), ("left", registerText left),
      ("right", registerText right)])
  | .setSlice seq left right src =>
    ("SetSlice", [("seq", registerText seq), ("left", registerText left),
      ("right", registerText right), ("src", registerText src)])
  | .push seq src => ("Push", [("seq", registerText seq), ("src", registerText src)])
  | .release seq => ("Release", [("seq", registerText seq)])
  | .ret src => ("Return", [("src", registerText src)])

def text (i : Instruction) : String :=
  let operands := i.form.2.map fun (name, operand) => name ++ ": " ++ operand
  i.form.1 ++ " \x7b " ++ ", ".intercalate operands ++ " \x7d"

end Instruction

end SequenceMachine
