import Mathlib.Data.List.Infix

/-! Statement usages (`instrumentor.hh`) and the ways a call can fail. -/

namespace DbFuzz

/-- An exception with its text, an exception of `stoi`, an `exit`, or an index outside
its vector, which is undefined behaviour. `outOfFuel` is the model's own. -/
inductive Failure
  | runtimeError (text : String)
  | stoiError
  | exit
  | badIndex
  | outOfFuel
  deriving DecidableEq, Repr

/-- `str.find(sub) != string::npos` -/
def containsText (str sub : String) : Bool := str.toList.tails.any sub.toList.isPrefixOf

/-- `txn_status` -/
inductive TxnStatus
  | notDefined
  | commit
  | abort
  deriving DecidableEq, Repr

inductive StmtBasicType
  | initType
  | selectRead
  | updateWrite
  | insertWrite
  | deleteWrite
  | beforeWriteRead
  | afterWriteRead
  | versionSetRead
  deriving DecidableEq, Repr

structure StmtUsage where
  stmtType : StmtBasicType
  isInstrumented : Bool
  targetTable : String
  deriving DecidableEq, Repr

/-- The constructor without a table leaves `target_table` empty. -/
def StmtUsage.mk' (stmtType : StmtBasicType) (isInstrumented : Bool) : StmtUsage :=
  ⟨stmtType, isInstrumented, ""⟩

/-- `operator=` from a basic type keeps the other fields. -/
def StmtUsage.assign (u : StmtUsage) (stmtType : StmtBasicType) : StmtUsage :=
  { u with stmtType := stmtType }

/-- `operator==` of two usages ignores `is_instrumented`. -/
def StmtUsage.same (u v : StmtUsage) : Bool :=
  u.stmtType == v.stmtType && u.targetTable == v.targetTable

@[simp] theorem StmtUsage.assign_stmtType (u : StmtUsage) (t : StmtBasicType) :
    (u.assign t).stmtType = t := rfl

@[simp] theorem StmtUsage.assign_isInstrumented (u : StmtUsage) (t : StmtBasicType) :
    (u.assign t).isInstrumented = u.isInstrumented := rfl

end DbFuzz
