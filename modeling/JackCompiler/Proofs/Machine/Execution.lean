import JackCompiler.Proofs.Lowering.Class
import JackCompiler.Proofs.Machine.Evaluation

/-! What statements do: the store that they leave behind, or the value that they return. -/

namespace JackCompiler

namespace Machine

/-- How the execution of statements ends. -/
inductive Outcome where
  /-- The statements behind are next. -/
  | finished (store : Store)
  | returned (value : Word) (store : Store)

/-- The store in which a variable has a new value. -/
def Store.assign (store : Store) (symbol : Symbol) (value : Word) : Store :=
  match symbol.kind with
  | .static => { store with
      memory.statics := Function.update store.memory.statics symbol.index value }
  | .field => { store with
      memory.ram := Function.update store.memory.ram
        (store.frame.object + BitVec.ofNat 16 symbol.index) value }
  | .argument => { store with
      frame.arguments := Function.update store.frame.arguments symbol.index value }
  | .localVar => { store with
      frame.locals := Function.update store.frame.locals symbol.index value }

end Machine

open Machine

mutual

/-- A statement is executed from a store to an outcome. -/
inductive Statement.Executes (world : World) (context : Context) :
    Statement → Store → Outcome → Prop where
  | assign {target : String} {value : Expression} {frame : Frame} {memory memory' : Memory}
      {result : Word} (symbol : Symbol) (declared : context.symbol? target = some symbol)
      (evaluates : value.eval world context frame memory = (result, memory')) :
      Statement.Executes world context (.assign target value) ⟨frame, memory⟩
        (.finished (Store.assign ⟨frame, memory'⟩ symbol result))
  /-- The array is read before its index is computed, and the index before the value. -/
  | assignElement {array : String} {index value : Expression} {frame : Frame}
      {memory memory' memory'' : Memory} {offset result : Word}
      (indexes : index.eval world context frame memory = (offset, memory'))
      (evaluates : value.eval world context frame memory' = (result, memory'')) :
      Statement.Executes world context (.assignElement array index value) ⟨frame, memory⟩
        (.finished ⟨frame, { memory'' with
          ram := Function.update memory''.ram (context.value array frame memory + offset) result }⟩)
  /-- A condition holds when all bits of its value are set. -/
  | ifThen {condition : Expression} {body : Statements} {frame : Frame} {memory memory' : Memory}
      {outcome : Outcome}
      (holds : condition.eval world context frame memory = (.ofBool true, memory'))
      (executes : body.Executes world context ⟨frame, memory'⟩ outcome) :
      Statement.Executes world context (.ifThen condition body) ⟨frame, memory⟩ outcome
  | ifSkip {condition : Expression} {body : Statements} {frame : Frame} {memory memory' : Memory}
      {result : Word} (evaluates : condition.eval world context frame memory = (result, memory'))
      (fails : result ≠ .ofBool true) :
      Statement.Executes world context (.ifThen condition body) ⟨frame, memory⟩
        (.finished ⟨frame, memory'⟩)
  | ifThenElse {condition : Expression} {body otherwise : Statements} {frame : Frame}
      {memory memory' : Memory} {outcome : Outcome}
      (holds : condition.eval world context frame memory = (.ofBool true, memory'))
      (executes : body.Executes world context ⟨frame, memory'⟩ outcome) :
      Statement.Executes world context (.ifThenElse condition body otherwise) ⟨frame, memory⟩
        outcome
  | otherwise {condition : Expression} {body otherwise : Statements} {frame : Frame}
      {memory memory' : Memory} {result : Word} {outcome : Outcome}
      (evaluates : condition.eval world context frame memory = (result, memory'))
      (fails : result ≠ .ofBool true)
      (executes : otherwise.Executes world context ⟨frame, memory'⟩ outcome) :
      Statement.Executes world context (.ifThenElse condition body otherwise) ⟨frame, memory⟩
        outcome
  | whileStop {condition : Expression} {body : Statements} {frame : Frame}
      {memory memory' : Memory} {result : Word}
      (evaluates : condition.eval world context frame memory = (result, memory'))
      (fails : result ≠ .ofBool true) :
      Statement.Executes world context (.whileDo condition body) ⟨frame, memory⟩
        (.finished ⟨frame, memory'⟩)
  | whileAgain {condition : Expression} {body : Statements} {frame : Frame}
      {memory memory' : Memory} {store : Store} {outcome : Outcome}
      (holds : condition.eval world context frame memory = (.ofBool true, memory'))
      (executes : body.Executes world context ⟨frame, memory'⟩ (.finished store))
      (again : Statement.Executes world context (.whileDo condition body) store outcome) :
      Statement.Executes world context (.whileDo condition body) ⟨frame, memory⟩ outcome
  | whileReturn {condition : Expression} {body : Statements} {frame : Frame}
      {memory memory' : Memory} {value : Word} {store : Store}
      (holds : condition.eval world context frame memory = (.ofBool true, memory'))
      (executes : body.Executes world context ⟨frame, memory'⟩ (.returned value store)) :
      Statement.Executes world context (.whileDo condition body) ⟨frame, memory⟩
        (.returned value store)
  | call {call : Call} {frame : Frame} {memory memory' : Memory} {result : Word}
      (evaluates : call.eval world context frame memory = (result, memory')) :
      Statement.Executes world context (.call call) ⟨frame, memory⟩ (.finished ⟨frame, memory'⟩)
  /-- A subroutine that is declared `void` returns zero; in others, a value has to be given. -/
  | returnNothing {store : Store} (void : context.subroutine.isVoid = true) :
      Statement.Executes world context .returnNothing store (.returned 0 store)
  | returnValue {value : Expression} {frame : Frame} {memory memory' : Memory} {result : Word}
      (evaluates : value.eval world context frame memory = (result, memory')) :
      Statement.Executes world context (.returnValue value) ⟨frame, memory⟩
        (.returned result ⟨frame, memory'⟩)

/-- Statements are executed one after the other, until one of them returns. -/
inductive Statements.Executes (world : World) (context : Context) :
    Statements → Store → Outcome → Prop where
  | nil {store : Store} : Statements.Executes world context .nil store (.finished store)
  | next {first : Statement} {rest : Statements} {store between : Store} {outcome : Outcome}
      (executes : first.Executes world context store (.finished between))
      (further : Statements.Executes world context rest between outcome) :
      Statements.Executes world context (.cons first rest) store outcome
  | returned {first : Statement} {rest : Statements} {store final : Store} {value : Word}
      (executes : first.Executes world context store (.returned value final)) :
      Statements.Executes world context (.cons first rest) store (.returned value final)

end

end JackCompiler
