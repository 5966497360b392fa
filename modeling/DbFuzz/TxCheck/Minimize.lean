import Mathlib.Data.List.DropRight
import DbFuzz.TxCheck.Reproduce

/-! `minimize_testcase` of the transaction test: three parallel queues from which transactions
and then statements are deleted, as long as the bug is reproduced and the user agrees. -/

namespace DbFuzz

/-- `oracle` is `reproduce_routine` at its `n`-th call, with the text of the error it reports,
and `saves` the answer of the user after that call. -/
structure MinimizeEnv where
  beginStmt : String
  commitStmt : String
  abortStmt : String
  oracle : ℕ → LoadedCase → String → Option String
  saves : ℕ → Bool

/-- What a candidate leaves out: a transaction, or the statement at `i` with the reads around
it, from `start` on. -/
inductive Removal
  | txn (tid : ℤ)
  | stmt (i start : ℕ)

structure Trial where
  base : LoadedCase
  removal : Removal
  candidate : LoadedCase

structure MinimizeState where
  calls : ℕ
  originalErr : String
  tried : List Trial
  final : LoadedCase

namespace LoadedCase

/-- `erase(begin() + i)` on the three queues -/
def eraseAt (c : LoadedCase) (i : ℕ) : Except Failure LoadedCase :=
  if i < c.stmtQueue.length ∧ i < c.tidQueue.length ∧ i < c.usageQueue.length then
    .ok ⟨c.stmtQueue.eraseIdx i, c.tidQueue.eraseIdx i, c.usageQueue.eraseIdx i⟩
  else .error .badIndex

/-- The loop that deletes a transaction, from index `i` on. A turn erases an entry or passes
it. -/
def deleteTid (tid : ℤ) : ℕ → ℕ → LoadedCase → Except Failure LoadedCase
  | 0, _, c => .ok c
  | turns + 1, i, c =>
    match c.tidQueue[i]? with
    | none => .ok c
    | some t =>
      if t ≠ tid then deleteTid tid turns (i + 1) c
      else do
        let c ← c.eraseAt i
        deleteTid tid turns i c

def adjustTid (tid : ℤ) (c : LoadedCase) : LoadedCase :=
  { c with tidQueue := c.tidQueue.map fun t => if t < tid then t else t - 1 }

/-- The loop that deletes the reads in front of a statement, with the index it stops behind. -/
def deleteBefore : ℕ → LoadedCase → Except Failure (ℕ × LoadedCase)
  | 0, c => .ok (0, c)
  | start + 1, c =>
    match c.usageQueue[start]? with
    | none => .error .badIndex
    | some u =>
      if u.stmtType = .beforeWriteRead ∨ u.stmtType = .versionSetRead then do
        let c ← c.eraseAt start
        deleteBefore start c
      else .ok (start + 1, c)

/-- A possible `AFTER_WRITE_READ`; the bound admits the index after the last one. -/
def deleteAfter (i : ℕ) (c : LoadedCase) : Except Failure LoadedCase :=
  if i + 1 ≤ c.usageQueue.length then
    match c.usageQueue[i + 1]? with
    | none => .error .badIndex
    | some u => if u.stmtType = .afterWriteRead then c.eraseAt (i + 1) else .ok c
  else .ok c

def deleteStmt (i : ℕ) (c : LoadedCase) : Except Failure (ℕ × LoadedCase) := do
  let c ← c.deleteAfter i
  let c ← c.eraseAt i
  deleteBefore i c

/-- `max_tid` -/
def maxTid (c : LoadedCase) : ℤ := c.tidQueue.foldl max (-1)

end LoadedCase

namespace MinimizeEnv

variable (env : MinimizeEnv)

/-- One call of the oracle, and of the user where it reports the bug. -/
def attempt (s : MinimizeState) (removal : Removal) (candidate : LoadedCase) :
    Bool × MinimizeState :=
  let tried := s.tried ++ [⟨s.final, removal, candidate⟩]
  match env.oracle s.calls candidate s.originalErr with
  | none => (false, { s with calls := s.calls + 1, tried := tried })
  | some err =>
    if env.saves s.calls then (true, ⟨s.calls + 1, err, tried, candidate⟩)
    else (false, ⟨s.calls + 1, err, tried, s.final⟩)

/-- Either `tid` moves on or `txn_num` goes down; the counter is their difference. -/
def txnLoop : ℕ → ℤ → MinimizeState → Except Failure MinimizeState
  | 0, _, s => .ok s
  | n + 1, tid, s => do
    let c ← s.final.deleteTid tid s.final.tidQueue.length 0
    let (saved, s) := env.attempt s (.txn tid) (c.adjustTid tid)
    txnLoop n (if saved then tid else tid + 1) s

def isControl (stmt : String) : Bool :=
  containsText stmt env.beginStmt || containsText stmt env.commitStmt ||
    containsText stmt env.abortStmt

/-- `stmt_num` is the length of the queues. -/
def stmtLoop : ℕ → ℕ → MinimizeState → Except Failure MinimizeState
  | 0, _, _ => .error .outOfFuel
  | fuel + 1, i, s =>
    if s.final.tidQueue.length ≤ i then .ok s
    else
      match s.final.stmtQueue[i]? with
      | none => .error .badIndex
      | some stmt =>
        if env.isControl stmt then stmtLoop fuel (i + 1) s
        else
          match s.final.usageQueue[i]? with
          | none => .error .badIndex
          | some usage =>
            if usage.isInstrumented then stmtLoop fuel (i + 1) s
            else do
              let (start, c) ← s.final.deleteStmt i
              let (saved, s) := env.attempt s (.stmt i start) c
              stmtLoop fuel (if saved then start else i + 1) s

/-- The result, the queues of the caller and the candidates. `usage_queue` is a copy. -/
def minimizeTestcase (c : LoadedCase) : Except Failure (Bool × LoadedCase × List Trial) :=
  match env.oracle 0 c "" with
  | none => .ok (false, c, [])
  | some err => do
    let s ← env.txnLoop (c.maxTid + 1).toNat 0 ⟨1, err, [], c⟩
    let s ← env.stmtLoop (s.final.tidQueue.length + 1) 0 s
    if s.final.stmtQueue.length = c.stmtQueue.length then .ok (false, c, s.tried)
    else .ok (true, ⟨s.final.stmtQueue, s.final.tidQueue, c.usageQueue⟩, s.tried)

end MinimizeEnv

end DbFuzz
