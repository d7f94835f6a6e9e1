namespace EdgeFleet.Http

def isTokenChar (c : Char) : Bool :=
  ('0' ≤ c && c ≤ '9') || ('A' ≤ c && c ≤ 'Z') || ('a' ≤ c && c ≤ 'z') ||
    ['!', '#', '$', '%', '&', '\x27', '*', '+', '-', '.', '^', '_', '\x60', '|', '~'].contains c

def isToken (cs : List Char) : Bool :=
  cs ≠ [] && cs.all isTokenChar

end EdgeFleet.Http
