/-!
# Environment variables

What a program finds in its environment.
-/

namespace ElmAtlas

abbrev Environment := List (String × String)

namespace Environment

def get? (environment : Environment) (name : String) : Option String :=
  environment.lookup name

/-- Where programs are looked up when nothing says where. -/
def defaultSearchPath : String :=
  "/bin:/usr/bin"

def searchPath (environment : Environment) : String :=
  (environment.get? "PATH").getD defaultSearchPath

end Environment

end ElmAtlas
