import EggFront.Toml.Read

/-!
# Project configuration

An egg project is configured by the TOML file `egg.toml`. Three of its tables
matter: `[package]` gives `name` and `version`, `[analysis]` gives
`warnings_as_errors`, and `[unparse]` gives `indent` and `annotate`. A setting
the file leaves out keeps its default; a setting it gives is taken as it is,
whatever its type, and its type only matters where the setting is used.

A file that is not valid TOML is refused with the reader's message, and so is
one with a decimal integer longer than `maxDigits` digits; a section
that is present but not a table is refused with the kind of value it holds.
The sections are looked at in the order package, analysis, unparse, so the
first bad one is reported.
-/

namespace EggFront

open Toml

/-- The settings of a project. -/
structure Config where
  name : Value := .str "untitled"
  version : Value := .str "0.0.0"
  warningsAsErrors : Value := .bool false
  indent : Value := .int 4
  annotate : Value := .bool true
deriving Inhabited

/-- Why a configuration file could not be used. -/
inductive ConfigError where
  /-- The file is not valid TOML. -/
  | invalid (message : String)
  /-- The file has a decimal integer with this many digits, more than
  `maxDigits`. -/
  | tooManyDigits (count : Nat)
  /-- A section holds a value of this kind instead of a table. -/
  | notATable (kind : String)

/-- What a configuration error says. -/
def ConfigError.message : ConfigError → String
  | .invalid m => m
  | .tooManyDigits n => (Problem.tooManyDigits n).message
  | .notATable k => "'" ++ k ++ "' object has no attribute 'get'"

namespace Config

/-- The table of a section, if the file has that section. -/
def section? (root : Table) (name : String) : Except ConfigError (Option Table) :=
  match root.get? name with
  | none => .ok none
  | some (.table t) => .ok (some t)
  | some v => .error (.notATable v.kindName)

/-- Whether a setting holds an integer too long to write in decimal. -/
def hasLongInt (c : Config) : Bool :=
  [c.name, c.version, c.warningsAsErrors, c.indent, c.annotate].any Value.hasLongInt

/-- A setting of a section, or its default. -/
def setting (t : Table) (key : String) (default : Value) : Value := (t.get? key).getD default

/-- The settings that the text of a configuration file gives. -/
def ofToml (text : String) : Except ConfigError Config := do
  let root ← match parse text with
    | .ok root => pure root
    | .error ⟨.tooManyDigits n, _⟩ => throw (.tooManyDigits n)
    | .error e => throw (.invalid (e.message (joinLineBreaks text.toList)))
  let d : Config := {}
  let c := match ← section? root "package" with
    | some t => { d with name := setting t "name" d.name, version := setting t "version" d.version }
    | none => d
  let c := match ← section? root "analysis" with
    | some t => { c with warningsAsErrors := setting t "warnings_as_errors" d.warningsAsErrors }
    | none => c
  let c := match ← section? root "unparse" with
    | some t => { c with indent := setting t "indent" d.indent, annotate := setting t "annotate" d.annotate }
    | none => c
  pure c

end Config

end EggFront
