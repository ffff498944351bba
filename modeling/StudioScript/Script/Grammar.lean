/-! # The grammar of scripts

The grammar as it is handed out to those who write scripts, in an extended Backus-Naur form.
-/

namespace StudioScript

def grammarLines : List String := [
  "script        : separator* (statement (separator+ statement)*)? separator* EOF",
  "separator     : NEWLINE | \";\"",
  "",
  "statement     : track_call chain*",
  "              | filter_call chain*",
  "              | map_call",
  "              | for_each_call",
  "              | utility_call",
  "",
  "track_call    : \"track\" \"(\" (NUMBER | kwargs)? \")\"",
  "filter_call   : \"filter\" \"(\" NAME \",\" predicate \")\"",
  "map_call      : \"map\" \"(\" NAME \",\" func_ref \")\"",
  "for_each_call : \"for_each\" \"(\" NAME \",\" func_ref \")\"",
  "utility_call  : utility \"(\" kwargs? \")\"",
  "utility       : \"store\" | \"get_tracks\" | \"get_fx_chain\"",
  "",
  "chain         : NEWLINE* \".\" (method | utility) \"(\" kwargs? \")\"",
  "method        : \"new_clip\" | \"add_fx\" | \"set_track\" | \"delete\" | \"delete_clip\"",
  "              | \"set_clip\" | \"move_clip\" | \"add_automation\"",
  "",
  "predicate     : NAME \".\" NAME compare_op value",
  "              | NAME \".\" NAME \"in\" array",
  "compare_op    : \"==\" | \"!=\" | \"<\" | \">\" | \"<=\" | \">=\"",
  "",
  "func_ref      : \"@\" NAME",
  "              | NAME \".\" method \"(\" kwargs? \")\"",
  "",
  "kwargs        : kwarg (\",\" kwarg)* \",\"?",
  "kwarg         : NAME \"=\" value",
  "value         : STRING | NUMBER | BOOLEAN | array | object",
  "array         : \"[\" (value (\",\" value)* \",\"?)? \"]\"",
  "object        : \"\x7b\" kwargs? \"\x7d\"",
  "",
  "STRING        : '\"' ([^\"\\\\\\n] | '\\\\' .)* '\"'",
  "NUMBER        : \"-\"? (DIGIT+ (\".\" DIGIT+)? | \".\" DIGIT+)",
  "BOOLEAN       : \"true\" | \"false\"",
  "NAME          : [A-Za-z_] [A-Za-z0-9_]*",
  "COMMENT       : \"//\" [^\\n]*"]

/-- The grammar; every line ends in a line feed. -/
def grammar : String := String.join (grammarLines.map (· ++ "\n"))

end StudioScript
