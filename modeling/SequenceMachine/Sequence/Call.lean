import SequenceMachine.Sequence.Slice

namespace SequenceMachine.Sequence

inductive Call (α : Type) where
  | length
  | isEmpty
  | isCyclic
  | elements
  | get (index : Int)
  | set (index : Int) (value : α)
  | exchange (index : Int) (value : α)
  | push (value : α)
  | pop
  | append (items : List α)
  | insert (index : Int) (items : List α)
  | delete (first last : Int)
  | clear
  | slice (left right : Int)
  | sliceLength (left right : Int)
  | assignedLength (left right : Int) (sourceLength : Nat)
  | assign (left right : Int) (source : List α)
  | assignSelf (left right : Int)

inductive Answer (α : Type) where
  | done
  | flag (value : Bool)
  | size (value : Nat)
  | element (value : α)
  | popped (value : Option α)
  | elements (values : List α)
  | sequence (value : Sequence α)

variable {α : Type}

def perform : Call α → Edit α (Answer α)
  | .length => do return .size (← Action.state).length
  | .isEmpty => do return .flag (← Action.state).isEmpty
  | .isCyclic => do return .flag (← Action.state).isCyclic
  | .elements => do return .elements (← Action.state).elements
  | .get index => do return .element (← (← Action.state).get index)
  | .set index value => do set index value; return .done
  | .exchange index value => do return .element (← exchange index value)
  | .push value => do Action.modify (push value); return .done
  | .pop => do return .popped (← pop)
  | .append items => do Action.modify (append items); return .done
  | .insert index items => do insert index items; return .done
  | .delete first last => do delete first last; return .done
  | .clear => do Action.modify clear; return .done
  | .slice left right => do
    let s ← Action.state
    return .sequence (← (s.slice left right : Outcome Error (Sequence α)))
  | .sliceLength left right => do return .size ((← Action.state).sliceLength left right)
  | .assignedLength left right sourceLength => do
    return .size (← (← Action.state).assignedLength left right sourceLength)
  | .assign left right source => do assign left right source; return .done
  | .assignSelf left right => do assignSelf left right; return .done

end SequenceMachine.Sequence
