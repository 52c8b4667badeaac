/-! # Compiling patterns

A pattern is a regular expression.  Which texts are patterns is up to the engine that compiles
them, which is not part of this development: all that is asked of it is whether a text compiles,
and for what reason it does not.  So whatever declares patterns takes a compiler of patterns as
given, and what is shown of it holds for every compiler.
-/
namespace DeviceSchema

/-- A compiler of patterns: it has nothing against a text, or it gives a reason. -/
class PatternCompiler where
  compile : String → Except String Unit

end DeviceSchema
