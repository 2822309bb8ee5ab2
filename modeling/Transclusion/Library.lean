import Transclusion.Outline.Reading
import Transclusion.Text.Utf8

namespace Transclusion

open Text

structure Source where
  id : Text
  name : Text
  deriving DecidableEq

-- The reasons for which a library cannot answer.
inductive Fault
  | denied (text : Text)
  | missing (text : Text)
  | broken (text : Text)
  | invalid (text : Text)
  | unknownName (name : Text)
  | noSuchFile (path : Text)
  | isDirectory (path : Text)
  | nameTooLong (path : Text)
  | notADirectory (path : Text)
  | nulInPath
  | noHome
  | anchoredPattern
  | mixedPattern
  | patternNotText
  | malformed (m : Utf8.Malformed)
  deriving DecidableEq

namespace Fault

def message : Fault → Text
  | denied text | missing text | broken text | invalid text => text
  | unknownName name => quoted name
  | noSuchFile path => "[Errno 2] No such file or directory: ".toList ++ quoted path
  | notADirectory path => "[Errno 20] Not a directory: ".toList ++ quoted path
  | isDirectory path => "[Errno 21] Is a directory: ".toList ++ quoted path
  | nameTooLong path => "[Errno 36] File name too long: ".toList ++ quoted path
  | nulInPath => "embedded null byte".toList
  | noHome => "Could not determine home directory.".toList
  | anchoredPattern => "Non-relative patterns are unsupported".toList
  | mixedPattern => "Invalid pattern: '**' can only be an entire path component".toList
  | patternNotText => "pattern is not a text".toList
  | malformed m => m.message

def isDenied : Fault → Bool
  | denied _ => true
  | _ => false

end Fault

-- `scope` is where ids are searched. `beside?` and `search?` are missing where nothing can be asked.
structure Library where
  scope : Option Text
  beside? : Option (Text → Except Fault Source)
  search? : Option (Text → Text → Except Fault (Option Source))
  content : Source → Except Fault Text
  parse : Text → Except Fault Document

-- What a library was asked for.
inductive Access
  | beside (path : Text)
  | search (scope id : Text)
  | fetch (name : Text)
  deriving DecidableEq

end Transclusion
