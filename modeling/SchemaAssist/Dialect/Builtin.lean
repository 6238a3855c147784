import SchemaAssist.Dialect.Document

/-! # Builtin dialects

The dialects that need no descriptor. They are found by name or by a common short name.
-/
namespace SchemaAssist.Dialect

def mysqlKeywords : String := "btree hash zerofill character collate"

def mysqlTypes : String :=
  "bool blob long longblob longtext medium mediumblob mediumint mediumtext tinyblob tinyint " ++
  "tinytext text bigint int1 int2 int3 int4 int8 float4 float8 varbinary varcharacter " ++
  "precision datetime unsigned signed"

def mysqlBuiltin : String :=
  "charset clear edit ego help nopager notee nowarning pager print prompt quit rehash " ++
  "source status system tee"

def mssqlTypes : String :=
  "bigint smallint smallmoney tinyint money real text nvarchar ntext varbinary image " ++
  "hierarchyid uniqueidentifier sql_variant xml"

def mssqlBuiltin : String :=
  "binary_checksum checksum connectionproperty context_info current_request_id error_line " ++
  "error_message error_number error_procedure error_severity error_state formatmessage " ++
  "get_filestream_transaction_context getansinull host_id host_name isnull isnumeric " ++
  "min_active_rowversion newid newsequentialid rowcount_big xact_state object_id"

def sqliteTypes : String :=
  "bool blob long longblob longtext medium mediumblob mediumint mediumtext tinyblob tinyint " ++
  "tinytext text bigint int2 int8 unsigned signed real"

def sqliteBuiltin : String :=
  "auth backup bail changes clone databases dbinfo dump echo eqp explain fullschema headers " ++
  "help import imposter indexes iotrace lint load log mode nullvalue once print prompt quit " ++
  "restore save scanstats separator shell show stats system tables testcase timeout timer " ++
  "trace vfsinfo vfslist vfsname width"

def plsqlTypes : String :=
  "ascii bfile bfilename bigserial bit blob dec long number nvarchar nvarchar2 serial " ++
  "smallint string text uid varchar2 xml"

def plsqlBuiltin : String :=
  "appinfo arraysize autocommit autoprint autorecovery autotrace blockterminator break " ++
  "btitle cmdsep colsep compatibility compute concat copycommit copytypecheck define echo " ++
  "editfile embedded feedback flagger flush heading headsep instance linesize lno loboffset " ++
  "logsource longchunksize markup native newpage numformat numwidth pagesize pause pno " ++
  "recsep recsepchar repfooter repheader serveroutput shiftinout show showmode spool " ++
  "sqlblanklines sqlcase sqlcode sqlcontinue sqlnumber sqlpluscompatibility sqlprefix " ++
  "sqlprompt sqlterminator suffix tab term termout timing trimout trimspool ttitle " ++
  "underline verify version wrap"

def postgresTypes : String :=
  "bigint int8 bigserial serial8 varbit bool box bytea cidr circle precision float8 inet " ++
  "int4 json jsonb line lseg macaddr macaddr8 money numeric pg_lsn point polygon float4 " ++
  "int2 smallserial serial2 serial serial4 text timetz timestamptz tsquery tsvector " ++
  "txid_snapshot uuid xml"

/-- The dialect that MySQL and MariaDB share. -/
def mysqlSpec (name : String) : Spec :=
  { Spec.named name with
    operatorChars := some "*+-%<>!=&|^"
    charSetCasts := some true
    doubleQuotedStrings := some true
    unquotedBitLiterals := some true
    hashComments := some true
    spaceAfterDashes := some true
    specialVar := some "@?"
    identifierQuotes := some "\x60"
    keywords := some (commonKeywords ++ " " ++ mysqlKeywords)
    types := some (commonTypes ++ " " ++ mysqlTypes)
    builtin := some mysqlBuiltin }

def mssqlSpec : Spec :=
  { Spec.named "Microsoft SQL Server" with
    types := some (commonTypes ++ " " ++ mssqlTypes)
    builtin := some mssqlBuiltin
    operatorChars := some "*+-%<>!=^&|/"
    specialVar := some "@" }

def sqliteSpec : Spec :=
  { Spec.named "SQLite" with
    types := some (commonTypes ++ " " ++ sqliteTypes)
    builtin := some sqliteBuiltin
    operatorChars := some "*+-%<>!=&|/~"
    identifierQuotes := some "\x60\""
    specialVar := some "@:?$" }

def plsqlSpec : Spec :=
  { Spec.named "PL/SQL" with
    builtin := some plsqlBuiltin
    types := some (commonTypes ++ " " ++ plsqlTypes)
    operatorChars := some "*/+-%<>!=~"
    doubleQuotedStrings := some true
    charSetCasts := some true
    plsqlQuotingMechanism := some true }

def postgresSpec : Spec :=
  { Spec.named "PostgreSQL" with
    charSetCasts := some true
    doubleDollarQuotedStrings := some true
    operatorChars := some "+-*/<>=~!@#%^&|\x60?"
    specialVar := some ""
    types := some (commonTypes ++ " " ++ postgresTypes) }

def standard : Dialect := define (.named "Standard SQL")

/-- All builtin dialects, the standard one first. -/
def builtins : List Dialect :=
  standard ::
    ([mysqlSpec "MySQL", mysqlSpec "MariaDB", mssqlSpec, sqliteSpec, plsqlSpec, postgresSpec].map
      define)

/-- Short names and the names they stand for, both in lower case. -/
def aliases : List (String × String) :=
  [("standard", "standard sql"), ("sql", "standard sql"),
   ("mssql", "microsoft sql server"), ("sqlserver", "microsoft sql server"),
   ("sql server", "microsoft sql server"),
   ("plsql", "pl/sql"), ("pl/sql", "pl/sql"), ("oracle", "pl/sql"),
   ("postgres", "postgresql"), ("pg", "postgresql")]

/-- The builtin dialect of a name or short name, blanks around it and its case left aside. -/
def builtin? (name : String) : Except DialectError Dialect :=
  let asked := Text.lowerAscii (Text.trim name)
  let wanted := (aliases.lookup asked).getD asked
  match builtins.find? fun d => Text.sameWord d.name wanted with
  | some d => .ok d
  | none => .error (.unknownDialect name)

end SchemaAssist.Dialect
