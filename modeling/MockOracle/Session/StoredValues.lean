import MockOracle.Eval.Literal
import MockOracle.Eval.Plain
import MockOracle.Session.Conform

/-!
# Storing a stored value

What a column has stored, every column of its type stores as it is, whatever the session's
formats. So assigning a column to itself changes no row, and copying a value into a column of
the same type stores that value; neither fails.
-/

namespace MockOracle

section Stored

variable {dates : DateFormats} {env : Env} {user table : String} {col : TableColumn} {v w : Value}

/-- A value that conforms to a column is stored as it is. -/
theorem Value.Conforms.storeValue_self (conforms : w.Conforms dates col) (env : Env)
    (user table : String) : col.storeValue dates env user table w = .ok w := by
  rcases conforms with rfl | ⟨-, accepted⟩
  · rfl
  · exact accepted env user table

variable {ev : Evaluator} {ctx : Dml} {ex : Ex} {t : Table} {column : TableColumn} {st st' : EvalState}

/-- A statement stores what conforms to the column as it is. -/
theorem storeValue_stored (engine : ctx.ev = ev.storing dates) (conforms : w.Conforms dates column) :
    storeValue ctx table column w st = .ok w st := by
  have accepted : ctx.ev.storeValue st.env table column w = .ok w := by
    rw [engine]
    exact conforms.storeValue_self st.env st.env.user table
  simp only [storeValue, bind, EStateM.bind, get, getThe, MonadStateOf.get, EStateM.get, accepted,
    EvalM.lift]

/-- UPDATE: an assignment of a row's own value leaves the row as it is. -/
theorem assignCells_stored (engine : ctx.ev = ev.storing dates) {cols : List RelCol} {row : Row}
    {name : String} {e : Expr} {i : Nat} (target : t.columns[i]? = some column)
    (conforms : w.Conforms dates column) (own : row[i]? = some w)
    (evaluated : ctx.ev.eval ex e (.row cols row none) st = .ok w st') :
    assignCells ctx ex t cols row [((name, e), i)] row st = .ok row st' := by
  obtain ⟨inside, value⟩ := List.getElem?_eq_some_iff.mp own
  have same : row.set i w = row := by
    rw [← value]
    exact List.set_getElem_self inside
  simp only [assignCells, storeCell, target, bind, EStateM.bind, evaluated,
    storeValue_stored engine conforms, pure, EStateM.pure, same]

/-- INSERT: a given value is stored as it is, unless an identity column replaces a NULL. -/
theorem insertCell_stored (engine : ctx.ev = ev.storing dates) (conforms : w.Conforms dates column)
    (given : ¬ (column.identity = true ∧ w = .null)) :
    insertCell ctx ex t column (some w) st = .ok w st := by
  have taken : ¬ (column.identity && w.isNull) = true := by
    rw [Bool.and_eq_true, Value.isNull_iff]
    exact given
  simp only [insertCell, if_neg taken, bind, EStateM.bind, pure, EStateM.pure,
    storeValue_stored engine conforms]

/-- Storing is idempotent: what a column of some type has stored, each column of that type
stores unchanged in any session, and so do UPDATE of a column to its own value and INSERT of
the value into a column of the type. -/
theorem storing_idempotent (stored : col.storeValue dates env user table v = .ok w) :
    (∀ (other : TableColumn), other.sqlType = col.sqlType → ∀ env user table,
      other.storeValue dates env user table w = .ok w) ∧
    ∀ (ev : Evaluator) (ctx : Dml) (ex : Ex) (t : Table) (column : TableColumn),
      ctx.ev = ev.storing dates → column.sqlType = col.sqlType →
      (∀ (cols : List RelCol) (row : Row) (name : String) (e : Expr) (i : Nat) (st st' : EvalState),
        t.columns[i]? = some column → row[i]? = some w →
        ctx.ev.eval ex e (.row cols row none) st = .ok w st' →
        assignCells ctx ex t cols row [((name, e), i)] row st = .ok row st') ∧
      (∀ st, ¬ (column.identity = true ∧ w = .null) →
        insertCell ctx ex t column (some w) st = .ok w st) := by
  have conforms := TableColumn.storeValue_conforms stored
  refine ⟨fun other same env user table =>
    (conforms.of_type same).storeValue_self env user table, ?_⟩
  intro ev ctx ex t column engine same
  refine ⟨?_, fun st given => insertCell_stored engine (conforms.of_type same) given⟩
  intro cols row name e i st st' target own evaluated
  exact assignCells_stored engine target (conforms.of_type same) own evaluated

end Stored

/-- A text of two characters in a CHAR(5) column is padded once. -/
theorem storing_idempotent_char :
    (⟨"C", .char 5, none, false, false⟩ : TableColumn).storeValue Library.plain.dates
        (Literal.env "HR") "HR" "T" (.varchar2 "ab   ") = .ok (.varchar2 "ab   ") := by
  have stored : (⟨"C", .char 5, none, false, false⟩ : TableColumn).storeValue Library.plain.dates
      (Literal.env "HR") "HR" "T" (.varchar2 "ab") = .ok (.varchar2 "ab   ") := by decide +kernel
  exact (storing_idempotent stored).1 _ rfl _ _ _

end MockOracle
