import Mos6502.Json.Decode
import Mos6502.Json.Printer
import Mos6502.Json.Reader.Record
import Mos6502.Log.Settings
import Mos6502.Options

/-!
The configuration file: the processor's options and the log settings, as JSON. Every setting has a
default, so a file names only what it changes; names that are not known are passed over.
-/

set_option autoImplicit false

namespace Mos6502

open Json (Decoder Reader Value)

/-- Everything that a configuration file can set. -/
structure Config where
  cpu : Options := {}
  log : LogSettings := {}
  deriving DecidableEq, Repr, Inhabited

namespace Options

/-- The settings of a processor by name, and what each of them sets. -/
def switches : List (String × (Bool → Options → Options)) :=
  [("decimal_mode", fun b o ↦ { o with decimalMode := b }),
    ("unofficial_opcodes", fun b o ↦ { o with unofficialOpcodes := b }),
    ("trace", fun b o ↦ { o with trace := b })]

/-- Reads the settings of a processor. -/
def reader : Reader Options :=
  Reader.record "CpuConfig" (switches.map fun (name, put) ↦ .of name Reader.boolean put) {}

/-- The options that data describes. -/
def ofJson : Decoder Options :=
  Decoder.settings "CpuConfig" (switches.map fun (name, put) ↦ .of name Decoder.bool put) {}

/-- Options as data. -/
def toJson (o : Options) : Value :=
  .object [("decimal_mode", .bool o.decimalMode), ("unofficial_opcodes", .bool o.unofficialOpcodes),
    ("trace", .bool o.trace)]

end Options

namespace Level

/-- Reads a level by its name. -/
def reader : Reader Level :=
  Reader.variant (all.map name) ofName?

/-- The level that data describes. -/
def ofJson : Decoder Level :=
  Decoder.variant (all.map name) ofName?

/-- A level as data: its name. -/
def toJson (l : Level) : Value :=
  .string l.name

end Level

namespace LogSettings

/-- The settings of a log, by name. -/
def fields : List (Reader.Field LogSettings) :=
  [.of "level" Level.reader fun l s ↦ { s with level := l },
    .of "cpu" (Reader.optional Level.reader) fun l s ↦ { s with cpu := l },
    .of "interrupts" (Reader.optional Level.reader) fun l s ↦ { s with interrupts := l },
    .of "decode" (Reader.optional Level.reader) fun l s ↦ { s with decode := l },
    .of "rate_limit" (Reader.optional (Reader.natural "usize")) fun n s ↦ { s with rateLimit := n },
    .of "file" (Reader.optional (Reader.text "path string")) fun p s ↦ { s with file := p }]

/-- Reads the settings of a log. -/
def reader : Reader LogSettings :=
  Reader.record "LogSettings" fields {}

/-- Log settings as data. -/
def toJson (s : LogSettings) : Value :=
  let level (l : Option Level) : Value := (l.map Level.toJson).getD .null
  .object [("level", s.level.toJson), ("cpu", level s.cpu), ("interrupts", level s.interrupts),
    ("decode", level s.decode),
    ("rate_limit", (s.rateLimit.map fun n ↦ Value.int n).getD .null),
    ("file", (s.file.map Value.string).getD .null)]

end LogSettings

/-- Why the bytes of a file are no text, or are not there. -/
inductive ReadFault where
  | cannotOpen (fault : OpenFault)
  | notText
  deriving DecidableEq, Repr

/-- The text of a `ReadFault`. -/
def ReadFault.message : ReadFault → String
  | cannotOpen fault => fault.message
  | notText => "stream did not contain valid UTF-8"

/-- Why a configuration cannot be had or used. -/
inductive ConfigFault where
  | unreadable (path : String) (fault : ReadFault)
  | invalid (fault : Json.Fault)
  | logFile (path : String) (fault : OpenFault)
  deriving Repr

/-- The text of a `ConfigFault`. -/
def ConfigFault.message : ConfigFault → String
  | unreadable path fault => s!"failed to read config file {path}: {fault.message}"
  | invalid fault => s!"invalid config: {fault.message}"
  | logFile path fault => s!"failed to open log file {path}: {fault.message}"

namespace Config

/-- The parts of a configuration, by name. -/
def fields : List (Reader.Field Config) :=
  [.of "cpu" Options.reader fun o c ↦ { c with cpu := o },
    .of "log" LogSettings.reader fun s c ↦ { c with log := s }]

/-- Reads a configuration. -/
def reader : Reader Config :=
  Reader.record "CoreConfig" fields {}

/-- The configuration that a text describes. -/
def ofText (text : String) : Except ConfigFault Config :=
  (reader.run text).mapError .invalid

/-- The configuration in a file, given its path and what reading it gave. -/
def ofFile (path : String) (bytes : Except OpenFault ByteArray) : Except ConfigFault Config :=
  match bytes with
  | .error fault => .error (.unreadable path (.cannotOpen fault))
  | .ok bytes =>
    match String.fromUTF8? bytes with
    | none => .error (.unreadable path .notText)
    | some text => ofText text

/-- A configuration as data, with every setting. -/
def toJson (c : Config) : Value :=
  .object [("cpu", c.cpu.toJson), ("log", c.log.toJson)]

/-- A configuration as text, with every setting. -/
def toText (c : Config) : String :=
  c.toJson.pretty

/-- Applies the log settings of a configuration. -/
def applyLog (c : Config) (j : Journal) : Except ConfigFault Unit × Journal :=
  let (result, j) := c.log.apply j
  (result.mapError (.logFile (c.log.file.getD "")), j)

end Config

end Mos6502
