import InfraConfig.Functions.Texts
import InfraConfig.Functions.Lists
import InfraConfig.Functions.Numbers
import InfraConfig.Functions.Conversions
import InfraConfig.Functions.Addresses
import InfraConfig.Functions.Times

/-!
# The functions that expressions can call
-/

namespace InfraConfig

namespace Functions

def library : List (String × Function) :=
  textFunctions ++ listFunctions ++ numberFunctions ++ conversionFunctions ++ codeFunctions
    ++ addressFunctions ++ timeFunctions

def find? (name : String) : Option Function :=
  library.lookup name

end Functions

end InfraConfig
