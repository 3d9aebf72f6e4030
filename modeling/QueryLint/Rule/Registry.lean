import QueryLint.Rule.Capitalisation
import QueryLint.Rule.Whitespace

/-!
QueryLint.Rule.Registry — rules by code, and the choice of which to run.

Settings are checked before any rule is made: every code that is named must be known, and every
setting of a rule that runs must be one it declares, with a value that it allows.

* `RuleRegistry.standard` — the rules that come with the library.
* `RuleRegistry.choose` — the rules to run, in the order of the registry.
-/

namespace QueryLint

/-- Settings of one rule, by name. -/
abbrev RuleSettings := List (String × String)

/-- A rule that can be made once its settings are known. -/
structure RuleEntry where
  code : String
  description : String
  keywords : List ConfigKeyword
  make : RuleSettings → Except ConfigError Rule

namespace RuleEntry

/-- A rule that has no settings, or has been given them. -/
def ofRule (r : Rule) : RuleEntry := ⟨r.code, r.description, r.keywords, fun _ => .ok r⟩

/-- What is wrong with settings of a rule, if anything is. -/
def check (e : RuleEntry) : RuleSettings → Except ConfigError Unit
  | [] => .ok ()
  | (name, value) :: rest =>
    match e.keywords.find? (·.name == name) with
    | none => .error (.unknownKeyword e.code name)
    | some k =>
      if k.allowed.isEmpty || k.allowed.contains value then e.check rest
      else .error (.invalidValue e.code name value (", ".intercalate k.allowed))

end RuleEntry

namespace Rule

/-- The rule about the case of keywords with its setting. -/
def keywordCaseOf (settings : RuleSettings) : Except ConfigError Rule :=
  let k := CasePolicy.keyword
  let value := (settings.lookup k.name).getD k.default
  match CasePolicy.names.lookup value with
  | some policy => .ok (keywordCase policy)
  | none => .error (.invalidValue "L010" k.name value (", ".intercalate k.allowed))

end Rule

/-- Which rules to run, and with which settings. -/
structure RuleChoice where
  /-- The codes to run; all if none are given. -/
  only : Option (List String) := none
  /-- The codes not to run. -/
  except : List String := []
  /-- Settings by code. -/
  settings : List (String × RuleSettings) := []

namespace RuleChoice

variable (c : RuleChoice)

/-- The codes it names. -/
def named : List String := c.only.getD [] ++ c.except ++ c.settings.map (·.1)

/-- It lets a rule run. -/
def selects (code : String) : Bool := c.only.all (·.contains code) && !c.except.contains code

/-- The settings of a rule. -/
def settingsOf (code : String) : RuleSettings := (c.settings.lookup code).getD []

end RuleChoice

/-- Rules in the order in which they were added. -/
structure RuleRegistry where
  entries : List RuleEntry := []

namespace RuleRegistry

variable (r : RuleRegistry)

/-- The codes of all rules. -/
def codes : List String := r.entries.map (·.code)

/-- The rule of a code. -/
def find? (code : String) : Option RuleEntry := r.entries.find? (·.code == code)

/-- Add a rule. It takes the place of one with the same code. -/
def add (e : RuleEntry) : RuleRegistry :=
  if r.codes.contains e.code then
    ⟨r.entries.map fun old => if old.code = e.code then e else old⟩
  else ⟨r.entries ++ [e]⟩

/-- The rules that come with the library. -/
def standard : RuleRegistry :=
  ⟨[.ofRule Rule.trailingWhitespace, .ofRule Rule.spaceBeforeComma, .ofRule Rule.spaceAfterComma,
    .ofRule Rule.finalNewline,
    { RuleEntry.ofRule (Rule.keywordCase .consistent) with make := Rule.keywordCaseOf }]⟩

/-- A rule with its settings, if they are right. -/
def build (c : RuleChoice) (e : RuleEntry) : Except ConfigError Rule := do
  e.check (c.settingsOf e.code)
  e.make (c.settingsOf e.code)

/-- The rules to run, if all that is asked for is right. -/
def choose (c : RuleChoice) : Except ConfigError (List Rule) :=
  match c.named.find? (!r.codes.contains ·) with
  | some code => .error (.unknownRule code)
  | none => (r.entries.filter (c.selects ·.code)).mapM (build c)

end RuleRegistry

end QueryLint
