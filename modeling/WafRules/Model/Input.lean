import WafRules.Model.Basic
import WafRules.Model.Selector
import WafRules.Tree.Cursor

/-!
# Inputs

An input is a variable with a selector, written as the modifier, the variable and the
key behind a colon. The variables are the collections and scalars of a transaction;
their spellings are in capitals and are their symbols too. The inputs of a rule are
written with bars between them.
-/

namespace WafRules

/-- A variable that a rule can inspect. -/
inductive Variable where
  | argsCombinedSize | argsGet | argsGetNames | argsPost | argsPostNames | args
  | argsNames | duration | filesCombinedSize | filesNames | files | geo | ip
  | matchedVar | matchedVarName | matchedVars | matchedVarsNames | multipartPartHeaders
  | queryString | remoteAddr | reqbodyProcessor | requestBasename | requestBody
  | requestCookiesNames | requestCookies | requestFilename | requestHeadersNames
  | requestHeaders | requestLine | requestMethod | requestProtocol | requestUri
  | requestUriRaw | responseBody | responseStatus | tx | uniqueId | xml
  deriving DecidableEq

namespace Variable

def all : List Variable :=
  [.argsCombinedSize, .argsGet, .argsGetNames, .argsPost, .argsPostNames, .args,
   .argsNames, .duration, .filesCombinedSize, .filesNames, .files, .geo, .ip,
   .matchedVar, .matchedVarName, .matchedVars, .matchedVarsNames,
   .multipartPartHeaders, .queryString, .remoteAddr, .reqbodyProcessor,
   .requestBasename, .requestBody, .requestCookiesNames, .requestCookies,
   .requestFilename, .requestHeadersNames, .requestHeaders, .requestLine,
   .requestMethod, .requestProtocol, .requestUri, .requestUriRaw, .responseBody,
   .responseStatus, .tx, .uniqueId, .xml]

def spelling : Variable → String
  | .argsCombinedSize => "ARGS_COMBINED_SIZE"
  | .argsGet => "ARGS_GET"
  | .argsGetNames => "ARGS_GET_NAMES"
  | .argsPost => "ARGS_POST"
  | .argsPostNames => "ARGS_POST_NAMES"
  | .args => "ARGS"
  | .argsNames => "ARGS_NAMES"
  | .duration => "DURATION"
  | .filesCombinedSize => "FILES_COMBINED_SIZE"
  | .filesNames => "FILES_NAMES"
  | .files => "FILES"
  | .geo => "GEO"
  | .ip => "IP"
  | .matchedVar => "MATCHED_VAR"
  | .matchedVarName => "MATCHED_VAR_NAME"
  | .matchedVars => "MATCHED_VARS"
  | .matchedVarsNames => "MATCHED_VARS_NAMES"
  | .multipartPartHeaders => "MULTIPART_PART_HEADERS"
  | .queryString => "QUERY_STRING"
  | .remoteAddr => "REMOTE_ADDR"
  | .reqbodyProcessor => "REQBODY_PROCESSOR"
  | .requestBasename => "REQUEST_BASENAME"
  | .requestBody => "REQUEST_BODY"
  | .requestCookiesNames => "REQUEST_COOKIES_NAMES"
  | .requestCookies => "REQUEST_COOKIES"
  | .requestFilename => "REQUEST_FILENAME"
  | .requestHeadersNames => "REQUEST_HEADERS_NAMES"
  | .requestHeaders => "REQUEST_HEADERS"
  | .requestLine => "REQUEST_LINE"
  | .requestMethod => "REQUEST_METHOD"
  | .requestProtocol => "REQUEST_PROTOCOL"
  | .requestUri => "REQUEST_URI"
  | .requestUriRaw => "REQUEST_URI_RAW"
  | .responseBody => "RESPONSE_BODY"
  | .responseStatus => "RESPONSE_STATUS"
  | .tx => "TX"
  | .uniqueId => "UNIQUE_ID"
  | .xml => "XML"

instance : Vocabulary Variable where
  all := all
  spelling := spelling
  mem_all a := by cases a <;> decide
  spellings_nodup := by decide

end Variable

structure Input where
  name : Variable
  selector : Selector := .whole
  deriving DecidableEq

namespace Input

def ofNode (node : Node) : Except Fault Input := do
  node.expect .input
  let (modifier, cursor) := node.cursor.takeIf .inputModifier
  let (name, cursor) ← cursor.take (some .inputName)
  match Vocabulary.ofText? name.text with
  | none => .error (.unknownInput name.text)
  | some variableName =>
    let (key, _) := cursor.takeIf .selector
    let selector ← Selector.ofWritten (modifier.map Node.text) (key.map Node.text) node.text
    return ⟨variableName, selector⟩

def render (i : Input) : Text :=
  i.selector.mark ++ Vocabulary.text i.name ++
    i.selector.keyText?.elim [] fun key => ':' :: key

instance : Model Input where
  kind := .input
  ofNode node := (ofNode node).mapError .fault
  render := render

end Input

namespace Inputs

def ofNode (node : Node) : Except Fault (List Input) := do
  node.expect .inputs
  node.children.mapM Input.ofNode

def render (inputs : List Input) : Text := ['|'].intercalate (inputs.map Input.render)

instance : Model (List Input) where
  kind := .inputs
  ofNode node := (ofNode node).mapError .fault
  render := render

end Inputs

end WafRules
