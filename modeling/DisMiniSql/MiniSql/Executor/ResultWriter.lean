import Mathlib.Algebra.GroupWithZero.Nat
import Mathlib.Data.List.Basic

/-!
# `DisMiniSql.MiniSql.Executor.ResultWriter`: `ResultWriter`

The text that `ExecuteEngine::Execute` prints for the rows of a scan. A cell is the text of
`Field::toString`. Widths count bytes, as `std::string::size` and `std::setw` do; a cell that is
wider than its column is printed in full.
-/

set_option autoImplicit false

namespace DisMiniSql.MiniSql

namespace ResultWriter

/-- `std::string::size` of a text in UTF-8. -/
def size (cell : List Char) : Nat := (cell.map Char.utf8Size).sum

/-- `std::setw` with `std::left` and blanks. -/
def padLeft (cell : List Char) (width : Nat) : List Char :=
  cell ++ List.replicate (width - size cell) ' '

/-- `ResultWriter::WriteCell`, and `WriteHeaderCell` with the header enabled. -/
def writeCell (cell : List Char) (width : Nat) : List Char :=
  [' '] ++ padLeft cell width ++ [' ', '|']

/-- `ResultWriter::Divider`. -/
def divider (dataWidth : List Nat) : List Char :=
  '+' :: dataWidth.flatMap (fun width => List.replicate (width + 2) '-' ++ ['+']) ++ ['\n']

/-- `BeginRow`, the cells and `EndRow`. -/
def writeRow (cells : List (List Char)) (dataWidth : List Nat) : List Char :=
  '|' :: (List.zipWith writeCell cells dataWidth).flatten ++ ['\n']

/-- A number of milliseconds as seconds, `fixed` and with `setprecision(4)`. -/
def seconds (milliseconds : Nat) : List Char :=
  (milliseconds / 1000).repr.toList ++ ['.'] ++
    (((milliseconds % 1000) + 1000).repr.toList.drop 1 ++ ['0'])

/-- `ResultWriter::EndInformation` of a scan. -/
def endInformation (resultSize milliseconds : Nat) : List Char :=
  (if resultSize = 0 then "Empty set".toList
    else resultSize.repr.toList ++ " row in set".toList) ++
  ['('] ++ seconds milliseconds ++ " sec).".toList ++ ['\n']

end ResultWriter

open ResultWriter

/-- `data_width` in `ExecuteEngine::Execute`. -/
def dataWidth (columns : List (List Char)) (resultSet : List (List (List Char))) : List Nat :=
  List.zipWith max
    (resultSet.foldl (fun widths row => List.zipWith max widths (row.map size))
      (List.replicate columns.length 0))
    (columns.map size)

/-- What `ExecuteEngine::Execute` prints for a scan. -/
def printScan (columns : List (List Char)) (resultSet : List (List (List Char)))
    (milliseconds : Nat) : List Char :=
  let widths := dataWidth columns resultSet
  (if resultSet.isEmpty then []
    else
      divider widths ++ writeRow columns widths ++ divider widths ++
        resultSet.flatMap (fun row => writeRow row widths) ++ divider widths) ++
  endInformation resultSet.length milliseconds

example :
    printScan [['i', 'd']] [[['7']], [['1', '2', '3']]] 12 =
      ("+-----+\n| id  |\n+-----+\n| 7   |\n| 123 |\n+-----+\n" ++
        "2 row in set(0.0120 sec).\n").toList := by
  decide +kernel

end DisMiniSql.MiniSql
