import Testbench.Lib.Json
import Testbench.Lib.Text

/-!
`excel_to_json` (`canfd/json/excel_to_json.py`): from the rows of a test plan to one JSON file
for each group.

A row becomes a JSON text by replacements on what `json.dumps` gives (`processText`). The texts
of a group are put one behind the other into its file, whose brackets are then patched
(`excelToJsonGroup`). What a digit is, and how `int` reads a number, are parameters.
-/

namespace Testbench.Testplan

open Testbench.Lib Testbench.Lib.Json

/-- The cells of a row that are used, as texts. On an empty cell (`None`) of arguments
`process_to_json` raises. -/
structure SheetRow where
  testname : Option Str
  group : Str
  args : Str
  uvmTestname : Str

/-- What a run depends on besides the sheet. `int base text` is `none` where it raises. -/
structure Flow where
  isdigit : Str → Bool
  int : Nat → Str → Option Int
  sqr : Str
  wave : Str

/-- A row as it is to be found in the file of its group. -/
structure TestEntry where
  name : Str
  group : Str
  uvmTestname : Str
  simArgs : Str
  tcl : Str
  deriving DecidableEq

/-! ### `process_to_json` -/

/-- `re.split('\n |=', text)`. -/
def splitArgs : Str → List Str
  | [] => [[]]
  | '=' :: rest => [] :: splitArgs rest
  | '\n' :: ' ' :: rest => [] :: splitArgs rest
  | c :: rest =>
      match splitArgs rest with
      | word :: words => (c :: word) :: words
      | [] => [[c]]

/-- The elements at `a - 1` and `a`, for `a` from 1 in steps of 2. -/
def pairs : List Str → List (Str × Str)
  | key :: value :: rest => (key, value) :: pairs rest
  | _ => []

namespace Flow

variable (flow : Flow)

/-- The option of one setting. -/
def argText (key value : Str) : Option Str :=
  if flow.isdigit value then
    some ("+uvm_set_config_int=\"".toList ++ flow.sqr ++ ",".toList ++ key ++ ",".toList ++ value ++
      "\"".toList)
  else if "'b".toList <:+: value then
    (flow.int 2 (replaceAll "'b".toList [] value)).map fun n =>
      "+uvm_set_config_int=\"".toList ++ flow.sqr ++ key ++ ",".toList ++ (toString n).toList ++
        "\"".toList
  else if "'h".toList <:+: value then
    (flow.int 16 (replaceAll "'h".toList [] value)).map fun n =>
      "+uvm_set_config_int=\"".toList ++ flow.sqr ++ ".".toList ++ key ++ ",".toList ++
        (toString n).toList ++ "\"".toList
  else
    some ("+uvm_set_config_string=\"".toList ++ flow.sqr ++ ".".toList ++ key ++ ",".toList ++
      value ++ "\"".toList)

/-- `string3`. -/
def simArgs (args : Str) : Option Str :=
  ((pairs (splitArgs (replaceAll ";".toList [] args))).mapM fun kv => flow.argText kv.1 kv.2).map
    List.flatten

/-- The values of a row. -/
def entry (name : Str) (row : SheetRow) : Option TestEntry :=
  (flow.simArgs row.args).map fun simArgs =>
    { name := name
      group := row.group
      uvmTestname := row.uvmTestname
      simArgs := simArgs
      tcl := flow.wave }

/-- `read_Excel`: up to the first row without a name, the rows whose name has `_test` in it. It
is `none` where `process_to_json` raises. -/
def readExcel : List SheetRow → Option (List TestEntry)
  | [] => some []
  | row :: rows =>
      match row.testname with
      | none => some []
      | some name =>
          if "_test".toList <:+: name then
            (flow.entry name row).bind fun e => (readExcel rows).map (e :: ·)
          else readExcel rows

end Flow

namespace TestEntry

variable (e : TestEntry)

/-- `release_dirt`. -/
def record : List (Str × Str) :=
  [("uvm_testname".toList, e.uvmTestname), ("sim_args".toList, e.simArgs), ("tcl".toList, e.tcl),
    ("timescale".toList, "1ns/1ps".toList)]

end TestEntry

/-- `json.dumps` of an object, given the texts of its values. -/
def dumpsObject (members : List (Str × Str)) : Str :=
  '{' :: [',', ' '].intercalate (members.map fun m => quote m.1 ++ [':', ' '] ++ m.2) ++ ['}']

/-- `json.dumps(json_pt)`: a list of one object. -/
def dumpsEntry (e : TestEntry) : Str :=
  '[' :: dumpsObject [(e.name, dumpsObject (e.record.map fun m => (m.1, quote m.2)))] ++ [']']

/-- The replacements of a row's text. -/
def processText (e : TestEntry) : Str :=
  let s := dumpsEntry e
  let s := replaceAll ['['] [] s
  let s := replaceAll [']'] [] s
  let s := replaceAll ['}', ',', ' ', '{'] [','] s
  let s := replaceAll ['{'] ['{', '\n'] s
  let s := replaceAll ['"', ','] ['"', ',', '\n'] s
  let s := replaceAll ['}', ','] ['}', ',', '\n'] s
  let s := replaceAll ['1', 'p', 's', '"'] ['1', 'p', 's', '"', '\n'] s
  let s := replaceAll "\"uvm_testname\"".toList " \"uvm_testname\"".toList s
  let s := replaceAll "\"sim_args\"".toList " \"sim_args\"".toList s
  let s := replaceAll "\"tcl\"".toList " \"tcl\"".toList s
  let s := replaceAll "\"timescale\"".toList " \"timescale\"".toList s
  replaceAll ['*'] ['[', '*', ']'] s

/-! ### `excel_to_json_group` -/

/-- The files, by path. -/
abbrev Files := String → Option String

def groupPath (group : Str) : String := .ofList group ++ ".json"

/-- Add `{` to an empty file. -/
def addOpening (content : String) : String :=
  if (readlines content).head?.getD "" = "" then content ++ "\x7b" else content

/-- Add `json_str[1:-1]` and a comma. -/
def addContent (text : Str) (content : String) : String :=
  content ++ .ofList (text.tail.dropLast ++ [','])

/-- Add `}` if the last line is `},`. -/
def addClosing (content : String) : String :=
  if (readlines content).getLast?.getD "" = "\x7d," then content ++ "\x7d" else content

/-- The lines `},}` are replaced. -/
def patchClosing (content : String) : String :=
  String.join ((readlines content).map fun line => if line = "\x7d,\x7d" then "\x7d\x7d" else line)

/-- One loop over the rows: what it makes of the file of each. -/
def overRows (f : TestEntry → Option String → Option String) (files : Files)
    (entries : List TestEntry) : Files :=
  entries.foldl
    (fun files e => Function.update files (groupPath e.group) (f e (files (groupPath e.group))))
    files

/-- `excel_to_json_group`. A file that is opened is there afterwards. -/
def excelToJsonGroup (files : Files) (entries : List TestEntry) : Files :=
  let files := overRows (fun _ _ => none) files entries
  let files := overRows (fun _ file => some (addOpening (file.getD ""))) files entries
  let files := overRows (fun e file => some (addContent (processText e) (file.getD "")))
    files entries
  let files := overRows (fun _ file => some (addClosing (file.getD ""))) files entries
  overRows (fun _ file => some (patchClosing (file.getD ""))) files entries

/-! ### What is wanted of the files -/

/-- The record as a JSON value. -/
def TestEntry.value (e : TestEntry) : Value :=
  .obj (e.record.map fun m => (m.1, .str m.2))

/-- **The file maps exactly the test names of these rows to their records.** -/
def RoundTrips (file : Option String) (entries : List TestEntry) : Prop :=
  ∃ (text : String) (members : List (Str × Value)), file = some text ∧
    loads text.toList = some (.obj members) ∧
    ∀ key, get members key = get (entries.map fun e => (e.name, e.value)) key

/-- The rows of a group. -/
def groupEntries (entries : List TestEntry) (group : Str) : List TestEntry :=
  entries.filter (·.group = group)

end Testbench.Testplan
