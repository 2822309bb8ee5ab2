import Transclusion.Files.Library
import Transclusion.Resolution
import Transclusion.Toml.Reader

namespace Transclusion

open Text

inductive SettingsError
  | fault (f : Fault)
  | toml (e : Toml.Error)
  | notATable (typeName : Text)
  | notAPath (typeName : Text)
  | notANumber (typeName : Text)
  | tooLow (name shown : Text)
  | unknownLevel
  | unknownFormat

namespace SettingsError

def message : SettingsError → Text
  | fault f => f.message
  | toml e => e.message
  | notATable t => quoted t ++ " object has no attribute 'get'".toList
  | notAPath t => "expected str, bytes or os.PathLike object, not ".toList ++ t
  | notANumber t => "'<' not supported between instances of ".toList ++ quoted t ++ " and 'int'".toList
  | tooLow name shown => name ++ " must be >= 1, got ".toList ++ shown
  | unknownLevel => "logging.level must be one of DEBUG, INFO, WARNING, ERROR".toList
  | unknownFormat => "logging.format must be one of console, json".toList

end SettingsError

structure Settings where
  root : Path := {}
  pattern : Toml := .text "*.org".toList
  maxDepth : Toml := .int 5
  cacheSize : Toml := .int 50
  level : Text := "WARNING".toList
  format : Text := "console".toList
  debounce : Toml := .int 150

namespace Settings

def fileName : Text :=
  "orgtx.toml".toList

def levels : List Text :=
  ["DEBUG".toList, "INFO".toList, "WARNING".toList, "ERROR".toList]

def formats : List Text :=
  ["console".toList, "json".toList]

-- A bound that nothing reaches, for the numbers that are not finite.
def unbounded : Nat :=
  Nat.pow 2 64

-- The least whole number that is not below the value, for values that are at least one.
def bound : Toml → Nat
  | .int n => n.toNat
  | .bool b => b.toNat
  | .float x => if x.isFinite then min unbounded x.ceil.toUInt64.toNat else unbounded
  | _ => unbounded

def isBelowOne? : Toml → Option Bool
  | .int n => some (n < 1)
  | .bool b => some !b
  | .float x => some (x < 1)
  | _ => none

def depthLimit (s : Settings) : DepthLimit :=
  ⟨bound s.maxDepth, s.maxDepth.shown⟩

def capacity (s : Settings) : Nat :=
  bound s.cacheSize

-- A pattern that is empty, or another empty value, fits no file.
def glob (s : Settings) : Except Fault Glob :=
  match s.pattern with
  | .text t => Glob.ofText t
  | .bool false | .int 0 | .array [] | .table [] => Glob.ofText []
  | .float x => if x == 0 then Glob.ofText [] else .error .patternNotText
  | _ => .error .patternNotText

def tableAt (t : Toml.Table) (name : Text) : Except SettingsError Toml.Table :=
  match t.lookup name with
  | none => .ok []
  | some (.table u) => .ok u
  | some v => .error (.notATable v.typeName)

def path? : Toml → Except SettingsError Path
  | .text s => .ok (Path.ofText s)
  | v => .error (.notAPath v.typeName)

def atLeastOne (name : Text) (v : Toml) : Except SettingsError Unit :=
  match isBelowOne? v with
  | none => .error (.notANumber v.typeName)
  | some true => .error (.tooLow name v.shown)
  | some false => .ok ()

def ofTable (root? : Option Path) (t : Toml.Table) : Except SettingsError Settings := do
  let source ← tableAt t "source".toList
  let root ← ((source.lookup "root".toList).map path?).getD (.ok (root?.getD {}))
  let limits ← tableAt t "transclusion".toList
  let maxDepth := (limits.lookup "max_depth".toList).getD (.int 5)
  let cacheSize := (limits.lookup "cache_size".toList).getD (.int 50)
  atLeastOne "transclusion.max_depth".toList maxDepth
  atLeastOne "transclusion.cache_size".toList cacheSize
  let logging ← tableAt t "logging".toList
  let level := upper ((logging.lookup "level".toList).elim "WARNING".toList Toml.shown)
  let format := (logging.lookup "format".toList).getD (.text "console".toList)
  if !levels.contains level then throw .unknownLevel
  let format ← match format with
    | .text f => if formats.contains f then .ok f else .error .unknownFormat
    | _ => .error .unknownFormat
  let watch ← tableAt t "watch".toList
  .ok
    { root, maxDepth, cacheSize, level, format
      pattern := (source.lookup "pattern".toList).getD (.text "*.org".toList)
      debounce := (watch.lookup "debounce_ms".toList).getD (.int 150) }

def firstExisting (w : Workspace) : List Path → Except Fault (Option Path)
  | [] => .ok none
  | p :: ps => do
    if ← w.exists? p then .ok (some p) else firstExisting w ps

-- The given file, the one in the current directory, or the one in the root directory, whichever is
-- there first.
def load (w : Workspace) (config? root? : Option Path) : Except SettingsError Settings := do
  let name := Path.ofText fileName
  let places := config?.toList ++ [w.cwd.path.join name] ++ (root?.map (·.join name)).toList
  let found ← (firstExisting w places).mapError .fault
  match found with
  | none => ofTable root? []
  | some p =>
    let bytes ← (w.tree.bytes w.cwd p).mapError .fault
    let t ← (Utf8.decode bytes).mapError (.fault ∘ .malformed)
    ofTable root? (← (Toml.ofText t).mapError .toml)

end Settings

end Transclusion
