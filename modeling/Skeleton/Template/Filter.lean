import Skeleton.Json
import Skeleton.Text.LetterCase
import Skeleton.Text.Words
import Skeleton.Text.Blank
import Skeleton.Yaml.Writer

-- Filters: what a template does to a value before the value becomes text.

namespace Skeleton.Template

inductive Filter where
  | snake
  | camel
  | pascal
  | kebab
  | shoutySnake
  | title
  | upper
  | lower
  | trim
  | yaml
  | json
  deriving DecidableEq

namespace Filter

def name : Filter → String
  | snake => "snake"
  | camel => "camel"
  | pascal => "pascal"
  | kebab => "kebab"
  | shoutySnake => "shouty_snake"
  | title => "title"
  | upper => "upper"
  | lower => "lower"
  | trim => "trim"
  | yaml => "yaml"
  | json => "json"

def all : List Filter :=
  [snake, camel, pascal, kebab, shoutySnake, title, upper, lower, trim, yaml, json]

def ofName? (name : String) : Option Filter := all.find? fun f => f.name = name

-- Whether the filter takes every value; the others take text.
def isSerializer : Filter → Bool
  | yaml => true
  | json => true
  | _ => false

-- What a filter makes of a text. The serializers leave texts alone here.
def applyText (f : Filter) (s : String) : String :=
  match f with
  | snake => Text.snakeCase s
  | camel => Text.camelCase s
  | pascal => Text.pascalCase s
  | kebab => Text.kebabCase s
  | shoutySnake => Text.shoutyCase s
  | title => Text.titleCase s
  | upper => Text.upper s
  | lower => Text.lower s
  | trim => Text.trim s
  | yaml => s
  | json => s

def trimNewlines (s : String) : String :=
  String.ofList (Text.dropEndWhile (· == '\n') s.toList)

-- A value as a document, without the line breaks at its end. Other filters have no documents.
def serialize? (f : Filter) (v : Value) : Option String :=
  match f with
  | yaml => some (trimNewlines (Yaml.write v))
  | json => some (trimNewlines v.toJson.compact)
  | _ => none

theorem ofName?_name (f : Filter) : ofName? f.name = some f := by
  cases f <;> decide

end Filter

end Skeleton.Template
