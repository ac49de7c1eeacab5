import RelQuery.Text.Blank
import RelQuery.Text.Numeral

/-!
# Settings of an engine

A query has a time limit, which checked builds ignore unless told otherwise, and looks at its
deadline every so many tuples.
-/

namespace RelQuery

/-- How the program was built.  Checked builds are for debugging. -/
inductive BuildMode where
  | checked
  | optimized
  deriving DecidableEq

/-- The settings of an engine. -/
structure Settings where
  /-- The time limit of a query in milliseconds. -/
  timeLimit : Option Nat
  /-- The time limit also holds in checked builds. -/
  holdsWhenChecked : Bool
  /-- How many tuples are made between two looks at the deadline. -/
  pollInterval : Nat
  deriving DecidableEq

namespace Settings

/-- Half a minute per query, except in checked builds, and a look at the deadline every 1024
tuples. -/
def standard : Settings where
  timeLimit := some 30000
  holdsWhenChecked := false
  pollInterval := 1024

/-- The settings with another time limit, or without one. -/
def withTimeLimit (settings : Settings) (limit : Option Nat) : Settings :=
  { settings with timeLimit := limit }

/-- The settings with the time limit held in checked builds, or not. -/
def withCheckedLimit (settings : Settings) (enabled : Bool) : Settings :=
  { settings with holdsWhenChecked := enabled }

/-- The settings with another interval, at least one. -/
def withPollInterval (settings : Settings) (interval : Nat) : Settings :=
  { settings with pollInterval := max interval 1 }

/-- The number that a setting's text gives: at most 64 bits, blanks around it aside. -/
def readSetting? (text : String) : Option Nat :=
  Numeral.readUnsigned? 0xFFFFFFFFFFFFFFFF (Text.trim text.toList)

/-- The settings changed by the texts of two of them.  A time limit of zero means none, and a
text that gives no number changes nothing. -/
def withTexts (settings : Settings) (limit interval : Option String) : Settings :=
  let settings :=
    match limit.bind readSetting? with
    | some 0 => settings.withTimeLimit none
    | some limit => settings.withTimeLimit (some limit)
    | none => settings
  match interval.bind readSetting? with
  | some interval => settings.withPollInterval interval
  | none => settings

/-- The time limit that applies in a build. -/
def limitFor (settings : Settings) (mode : BuildMode) : Option Nat :=
  if mode = .checked && !settings.holdsWhenChecked then none else settings.timeLimit

end Settings

end RelQuery
