/-!
# Tool settings

Where the external tools are and whether files are formatted when saved.  Tool
paths are kept as the literal texts that were configured; an empty text means
that a tool is not configured.
-/

namespace ElmAtlas

structure Settings where
  elmCompilerPath : String := ""
  elmFormatPath : String := ""
  elmTestPath : String := ""
  elmReviewPath : String := ""
  isFormatOnSaveEnabled : Bool := false
  deriving DecidableEq, Repr, Inhabited

end ElmAtlas
