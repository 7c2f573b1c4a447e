/- source: cosmix-lib-bus/src/bus.rs
   digest: Bus messages, their wire form, and the strict parser. -/

import Std.Data.ExtTreeMap
import Cosmix.Lib.Text

namespace Cosmix.Bus

open Cosmix.Lib.Text

abbrev Headers := Std.ExtTreeMap String String compare

structure BusMessage where
  headers : Headers
  body : String

namespace BusMessage

protected def new : BusMessage := ⟨∅, ""⟩

variable (m : BusMessage)

def set (key value : String) : BusMessage :=
  { m with headers := m.headers.insert key value }

def get (key : String) : Option String := m.headers[key]?

def commandName : Option String := m.get "command"

def headerLine (h : String × String) : List Char := h.1.toList ++ ':' :: ' ' :: h.2.toList

def toWireChars : List Char :=
  "---\n".toList ++ (m.headers.toList.flatMap fun h => headerLine h ++ ['\n']) ++ "---\n".toList ++
    if m.body.isEmpty then []
    else m.body.toList ++ if m.body.toList.getLast? = some '\n' then [] else ['\n']

def toWire : String := String.ofList m.toWireChars

end BusMessage

def maxHeaders : Nat := 4096

structure ParseReport where
  skippedLines : List (Nat × String)
  jsonParseErrors : List (String × String)

def ParseReport.isEmpty (r : ParseReport) : Bool :=
  r.skippedLines.isEmpty && r.jsonParseErrors.isEmpty

inductive ParseError
  | missingStart (raw : String)
  | nonCompliant (report : ParseReport)

section

variable (wellFormed : String → Bool)

/-- A line that a strict parser would not take for a header. -/
def irregular (line key : List Char) : Bool :=
  (match line.head? with
    | some c => whitespace c
    | none => false) || key.isEmpty || key.any whitespace

/-- A value that starts as JSON and is none. -/
def brokenJson (val : List Char) : Bool :=
  match val.find? fun c => !whitespace c with
  | some first => (first == '[' || first == '{') && !wellFormed (String.ofList val)
  | none => false

/-- The loop over the header lines, from a line number and a count of lines. -/
def parseHeaders : Nat → Nat → List (List Char) → Headers → ParseReport → Headers × ParseReport
  | _, _, [], headers, report => (headers, report)
  | idx, processed, line :: rest, headers, report =>
    if line.isEmpty then parseHeaders (idx + 1) processed rest headers report
    else if maxHeaders ≤ processed then
      (headers, { report with skippedLines := report.skippedLines ++
        [(idx + 1, "header line count exceeds 4096; remaining lines skipped")] })
    else
      match splitOnce [':', ' '] line with
      | some (k, v) =>
        let key := trim k
        let val := trim v
        let report := if irregular line key then
          { report with skippedLines := report.skippedLines ++ [(idx + 1, String.ofList line)] }
          else report
        let report := if brokenJson wellFormed val then
          { report with jsonParseErrors := report.jsonParseErrors ++
            [(String.ofList key, String.ofList val)] }
          else report
        parseHeaders (idx + 1) (processed + 1) rest
          (headers.insert (String.ofList key) (String.ofList val)) report
      | none =>
        parseHeaders (idx + 1) (processed + 1) rest headers
          { report with skippedLines := report.skippedLines ++ [(idx + 1, String.ofList line)] }

def separator : List Char := '\n' :: ("---".toList ++ ['\n'])

/-- The header block and the body of what follows the opening line. -/
def frame (content : List Char) : List Char × List Char :=
  match splitOnce separator content with
  | some p => p
  | none =>
    let h := (stripSuffix separator content <|> stripSuffix "\n---".toList content <|>
      stripSuffix "---\n".toList content <|> stripSuffix "---".toList content).getD content
    (h, [])

def parseLenient (raw : String) : Except ParseError (BusMessage × ParseReport) :=
  match stripPrefix "---\n".toList raw.toList with
  | none => .error (.missingStart raw)
  | some content =>
    let (block, body) := frame content
    let (headers, report) := parseHeaders wellFormed 0 0 (lines block) ∅ ⟨[], []⟩
    .ok (⟨headers, String.ofList (trimEnd body)⟩, report)

def parseStrict (raw : String) : Except ParseError BusMessage :=
  match parseLenient wellFormed raw with
  | .error e => .error e
  | .ok (msg, report) => if report.isEmpty then .ok msg else .error (.nonCompliant report)

def parse (raw : String) : Except ParseError BusMessage :=
  (parseLenient wellFormed raw).map Prod.fst

end

end Cosmix.Bus
