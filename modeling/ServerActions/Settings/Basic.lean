namespace ServerActions

structure Settings where
  sourceDir : String := "src"
  fileStem : String := "troute"
  extension : String := "ts"
  outputDir : String := ".troute"
  outputStem : String := "actions"
  factory : String := "createTroute"
  directive : String := "use server"
  strict : Bool := true
  deriving DecidableEq, Inhabited

end ServerActions
