import DbFuzz.TxCheck.Mysql

/-! The texts of the rows of a table in a read (`dut_mysql::test`) and in the snapshot
(`dut_mysql::get_content`). -/

namespace DbFuzz

open AnalyzedQueue

theorem lookup_assignTable (table : String) (rows : StmtOutput) (es : List (String × StmtOutput)) :
    (assignTable table rows es).lookup table = some rows := by
  induction es with
  | nil => simp [assignTable]
  | cons e es ih =>
    rw [assignTable]
    split_ifs with hlt heq
    · simp
    · simp
    · rw [List.lookup_cons, beq_false_of_ne heq]
      exact ih

theorem rows_getContentRound {server : Server} {table : String}
    {rows : List (List (Option String))} (h : server table = some rows) (content : Content) :
    (getContentRound server content table).rows table = rows.map contentRow := by
  simp only [getContentRound, h, Content.rows, Content.assign, lookup_assignTable, Option.getD_some]

/-- `process_an_item` leaves the text of the cell as it is. -/
def KeepsText (cell : Option String) : Prop := processAnItem (cell.getD "NULL") = cell.getD "NULL"

instance (cell : Option String) : Decidable (KeepsText cell) := inferInstanceAs (Decidable (_ = _))

theorem contentRow_eq_iff (row : List (Option String)) :
    row.map (·.getD "NULL") = contentRow row ↔ ∀ cell ∈ row, KeepsText cell := by
  rw [contentRow, List.map_inj_left]
  exact forall₂_congr fun cell _ => eq_comm

/-- What a read of a table returns. -/
theorem MysqlBuild.dutTest_rows {b : MysqlBuild} {d d' : DutMysql} {stmt : String}
    {rows : List (List (Option String))} {out : StmtOutput} (hstmt : stmt ≠ "ROLLBACK;")
    (h : b.dutTest d stmt (.rows rows) = some (.ok out, d')) :
    out = if b.test = .async then rows.map fun row => row.map (·.getD "NULL")
      else rows.map contentRow := by
  unfold dutTest at h
  cases htest : b.test with
  | async =>
    rw [htest] at h
    simp only [asyncTest, hstmt, if_false, Option.some.injEq] at h
    split_ifs at h <;> simp_all
  | blockTest | fallback =>
    rw [htest] at h
    simp_all [syncTest]

end DbFuzz
