import NPlusOne.Task

namespace NPlusOne

namespace Log

inductive Level where
  | debug
  | info
  | warning
  | error
  | critical
  deriving DecidableEq, Repr

def Level.name : Level → String
  | .debug => "DEBUG"
  | .info => "INFO"
  | .warning => "WARNING"
  | .error => "ERROR"
  | .critical => "CRITICAL"

def Level.weight : Level → Int
  | .debug => 10
  | .info => 20
  | .warning => 30
  | .error => 40
  | .critical => 50

def Level.ofName? : String → Option Level
  | "DEBUG" => some .debug
  | "INFO" => some .info
  | "WARNING" => some .warning
  | "ERROR" => some .error
  | "CRITICAL" => some .critical
  | _ => none

inductive Channel where
  | command
  | settings
  | frontEnd
  | resolver
  | walk
  | extraction
  | memo
  | queryTypes
  | typeLookup
  | build
  | workbook
  | progress
  deriving DecidableEq, Repr

def Channel.name : Channel → String
  | .command => "main"
  | .settings => "config"
  | .frontEnd => "analyzer.clang_analyzer"
  | .resolver => "analyzer.cross_file"
  | .walk => "analyzer.detector"
  | .extraction => "analyzer.function_extractor"
  | .memo => "analyzer.memo"
  | .queryTypes => "analyzer.query_types"
  | .typeLookup => "analyzer.type_probe"
  | .build => "io.cmake_parser"
  | .workbook => "io.excel_writer"
  | .progress => "utils.logger"

structure Entry where
  level : Level
  channel : Channel
  text : String
  deriving DecidableEq, Repr

end Log

abbrev Log := Array Log.Entry

class HasLog (σ : Type) where
  append : Log.Entry → σ → σ

instance : HasLog Log where
  append entry log := log.push entry

namespace Log

def write {σ : Type} [HasLog σ] (level : Level) (channel : Channel) (text : String) : Task σ Unit :=
  modify (HasLog.append ⟨level, channel, text⟩)

end Log

end NPlusOne
