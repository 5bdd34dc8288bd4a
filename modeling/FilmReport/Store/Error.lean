/-!
Errors of the store: what a statement or a connection can refuse. `StoreError.message` holds all
wordings; `StoreError.beforeRun` marks those found while a statement is made ready, which come
before every error of running it.
-/

set_option autoImplicit false
set_option relaxedAutoImplicit false

namespace FilmReport

/-- Why the store refused a statement or a connection. -/
inductive StoreError where
  | noSuchTable (name : String)
  | noSuchColumn (name : String)
  | duplicateColumn (name : String)
  | missingParameter (name : String)
  | missingParameters
  | tooManyParameters
  | unsupportedValue
  | notReader
  | notNull (table column : String)
  | check (condition : String)
  | unique (table : String) (columns : List String) (isPrimary : Bool)
  /-- The number of a row is taken. -/
  | numberTaken (table : String)
  /-- No number is left for a new row. -/
  | full
  | notDroppable (table : String)
  | notModifiable (table : String)
  | foreignKey
  | immutableId
  | wrongKeyKind
  | notOpen
  | busyReading
  | readOnly
  | locked
  /-- The view of a transaction is not of the last commit. -/
  | stale
  | notADatabase
  | noTransaction (verb : String)
  | nestedTransaction
  | noSavepoint
  | cannotOpen
  | unreadableFile
  | noDirectory
  | anonymousReadOnly
  /-- The value of an option that is on or off. -/
  | notFlag (option : String)
  | badTimeout
  | longTimeout
deriving DecidableEq, Repr

namespace StoreError

def message : StoreError → String
  | noSuchTable name => "no such table: " ++ name
  | noSuchColumn name => "no such column: " ++ name
  | duplicateColumn name => "duplicate column name: " ++ name
  | missingParameter name => "Missing named parameter \"" ++ name ++ "\""
  | missingParameters => "Missing named parameters"
  | tooManyParameters => "Too many parameter values were provided"
  | unsupportedValue =>
    "SQLite3 can only bind numbers, strings, bigints, buffers, and null"
  | notReader => "This statement does not return data. Use run() instead"
  | notNull table column => "NOT NULL constraint failed: " ++ table ++ "." ++ column
  | check condition => "CHECK constraint failed: " ++ condition
  | unique table columns _ =>
    "UNIQUE constraint failed: " ++ ", ".intercalate (columns.map fun c => table ++ "." ++ c)
  | numberTaken table => "UNIQUE constraint failed: " ++ table ++ ".rowid"
  | full => "database or disk is full"
  | notDroppable table => "table " ++ table ++ " may not be dropped"
  | notModifiable table => "table " ++ table ++ " may not be modified"
  | foreignKey => "FOREIGN KEY constraint failed"
  | immutableId => "movie.id is immutable"
  | wrongKeyKind => "datatype mismatch"
  | notOpen => "The database connection is not open"
  | busyReading => "This database connection is busy executing a query"
  | readOnly => "attempt to write a readonly database"
  | locked => "database is locked"
  | stale => "database is locked"
  | notADatabase => "file is not a database"
  | noTransaction verb => "cannot " ++ verb ++ " - no transaction is active"
  | nestedTransaction => "cannot start a transaction within a transaction"
  | noSavepoint => "no such savepoint: \t_bs3.\t"
  | cannotOpen => "unable to open database file"
  | unreadableFile => "disk I/O error"
  | noDirectory => "Cannot open database because the directory does not exist"
  | anonymousReadOnly => "In-memory/temporary databases cannot be readonly"
  | notFlag option => "Expected the \"" ++ option ++ "\" option to be a boolean"
  | badTimeout => "Expected the \"timeout\" option to be a positive integer"
  | longTimeout => "Option \"timeout\" cannot be greater than 2147483647"

/-- Whether the error is found while a statement is made ready. -/
def beforeRun : StoreError → Bool
  | noSuchTable _ => true
  | noSuchColumn _ => true
  | notDroppable _ => true
  | notModifiable _ => true
  | missingParameter _ => true
  | missingParameters => true
  | tooManyParameters => true
  | unsupportedValue => true
  | notReader => true
  | _ => false

end StoreError
end FilmReport
