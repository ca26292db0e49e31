import NPlusOne.Log

namespace NPlusOne

/-- The identity of a type that issues queries: its declaration and the number of pointers around
it. The name is for display only. -/
structure QueryType where
  usr : String
  depth : Int := 0
  name : String := ""
  deriving DecidableEq, Repr

namespace QueryType

def same (a b : QueryType) : Bool :=
  a.usr = b.usr && a.depth = b.depth

def text (t : QueryType) : String :=
  if t.name = "" then String.ofList (List.replicate t.depth.toNat '*') ++ t.usr else t.name

def defaults : List (String × String) :=
  [("sqlite3.h", "*sqlite3"),
    ("libpq-fe.h", "*PGconn"),
    ("mysql.h", "*MYSQL"),
    ("pqxx/pqxx", "pqxx::connection"),
    ("pqxx/pqxx", "*pqxx::connection"),
    ("pqxx/pqxx", "pqxx::work"),
    ("pqxx/pqxx", "*pqxx::work"),
    ("pqxx/pqxx", "pqxx::nontransaction"),
    ("SQLiteCpp/Database.h", "SQLite::Database"),
    ("SQLiteCpp/Database.h", "*SQLite::Database"),
    ("soci/soci.h", "soci::session"),
    ("soci/soci.h", "*soci::session"),
    ("mysqlx/xdevapi.h", "mysqlx::Session"),
    ("mysqlx/xdevapi.h", "*mysqlx::Session"),
    ("QtSql/QSqlQuery", "QSqlQuery"),
    ("QtSql/QSqlDatabase", "QSqlDatabase"),
    ("odb/database.hxx", "odb::database"),
    ("odb/database.hxx", "*odb::database")]

end QueryType

/-- The set of types that issue queries, in the order of their registration. Once frozen it takes
no more types. -/
structure Registry where
  types : List QueryType := []
  frozen : Bool := false
  deriving Repr

namespace Registry

def contains (r : Registry) (t : QueryType) : Bool :=
  r.types.any t.same

/-- Adds a type; of equal types the first one's name stays. -/
def add (r : Registry) (t : QueryType) : Registry :=
  if r.contains t then r else { r with types := r.types ++ [t] }

def freeze (r : Registry) : Registry :=
  { r with frozen := true }

def size (r : Registry) : Nat :=
  r.types.length

def isEmpty (r : Registry) : Bool :=
  r.types.isEmpty

end Registry

end NPlusOne
