/-! # TOML values

The values of a TOML 1.0 document. Tables keep their keys in the order in which they were first
written. Floats and dates are held as written, since nothing computes with them.
-/

namespace ClassGauge.Toml

/-- A value. -/
inductive Value where
  | string (text : String)
  | integer (n : Int)
  | float (text : String)
  | boolean (b : Bool)
  | datetime (text : String)
  | array (items : List Value)
  | table (entries : List (String × Value))

end ClassGauge.Toml
