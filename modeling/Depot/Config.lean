import Depot.Config.Toml

/-!
# Repository settings

The settings of a repository are where its content lives, whether reads of
content are verified against their digest, and whether an evaluation caches
the set of every resource. They are read from a TOML document whose top-level
keys `content_dir` (a string), `verify_on_read` and `cache_universe` (booleans)
override the defaults; other keys and tables are ignored, and a key of the
wrong type makes the document unfit.
-/

namespace Depot

/-- **The settings of a repository.** -/
structure Config where
  contentDir : String
  verifyOnRead : Bool
  cacheUniverse : Bool
  deriving DecidableEq, Repr, Inhabited

/-- **Why a text gives no settings.** -/
inductive ConfigError where
  /-- The text is not a TOML document. -/
  | malformed
  /-- A key has a value of the wrong type. -/
  | wrongType (key : String)
  deriving DecidableEq, Repr

namespace Config

/-- The settings when nothing is said. -/
def default : Config := ⟨"/var/lib/resource-repo/content", true, true⟩

/-- A string setting: its value, or the default when the key is absent. -/
def stringKey (es : Toml.Entries) (k : String) (d : String) : Except ConfigError String :=
  match Toml.lookup k es with
  | none => .ok d
  | some (.string s) => .ok s
  | some _ => .error (.wrongType k)

/-- A boolean setting: its value, or the default when the key is absent. -/
def boolKey (es : Toml.Entries) (k : String) (d : Bool) : Except ConfigError Bool :=
  match Toml.lookup k es with
  | none => .ok d
  | some (.boolean b) => .ok b
  | some _ => .error (.wrongType k)

/-- **Reads settings** from a TOML document. -/
def ofToml (text : String) : Except ConfigError Config := do
  let es ← match Toml.parse text with
    | some es => pure es
    | none => throw .malformed
  pure ⟨← stringKey es "content_dir" default.contentDir,
    ← boolKey es "verify_on_read" default.verifyOnRead,
    ← boolKey es "cache_universe" default.cacheUniverse⟩

end Config

end Depot
