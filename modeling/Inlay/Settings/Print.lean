import Inlay.Json.Print
import Inlay.Settings.Parse

namespace Inlay

open Json

def Escape.value (e : Escape) : Value := .string e.name

def Descriptor.value : Descriptor → Value
  | .template text escape =>
    .object [(Settings.tagName, .string DescriptorKind.template.name), ("template", .string text),
      ("escape", escape.value)]
  | .command program args trimTrailingNewline =>
    .object [(Settings.tagName, .string DescriptorKind.command.name), ("program", .string program),
      ("args", .array (args.map .string)), ("trim_trailing_newline", .bool trimTrailingNewline)]

namespace Settings

def fieldValue (s : Settings) : Field → Value
  | .dsl => .object (s.dsl.entries.map fun e => (e.1, e.2.value))
  | .packages => .object (s.packages.entries.map fun e => (e.1, .string e.2))
  | .packageRoots => .array (s.packageRoots.map .string)
  | .fusionPath => .string s.fusionPath
  | .fileExtension => .string s.fileExtension

def value (s : Settings) : Value := .object (Field.all.map fun f => (f.name, s.fieldValue f))

def print (s : Settings) : String := Json.print s.value

end Settings

end Inlay
