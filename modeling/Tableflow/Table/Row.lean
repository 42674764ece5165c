import Tableflow.Cell.Order
import Tableflow.OrderedMap

/-!
Rows: cells under column names, in column order.
-/

namespace Tableflow

abbrev Row := OrderedMap Cell

namespace Row

/-- The cell under a column; missing if the row has no such column. -/
def cell (row : Row) (column : String) : Cell := (row.get? column).join

def cells (row : Row) (columns : List String) : List Cell := columns.map row.cell

def key (row : Row) (columns : List String) : List Key := (row.cells columns).map Cell.key

end Row

end Tableflow
