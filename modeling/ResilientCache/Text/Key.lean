import ResilientCache.Text.Quoted

/-!
# Keys as text

A key has two written forms: the plain one, and the one that logs and descriptions use, in which a
text is quoted and a number is not.
-/

namespace ResilientCache

/-- Keys that can be written. -/
class KeyText (K : Type) where
  /-- The key itself. -/
  plain : K → String
  /-- The key as logs and descriptions show it. -/
  shown : K → String

instance : KeyText Int where
  plain := toString
  shown := toString

instance : KeyText String where
  plain := id
  shown := quote

/-- A list of keys as logs show it. -/
def showKeys {K : Type} [KeyText K] (ks : List K) : String := bracketed (ks.map KeyText.shown)

end ResilientCache
