/-!
# Sample document

A short Lua program that an editor shows when no file is open.
-/

namespace ScriptLint

def sampleDocument : String := "-- Welcome to Lua Syntax Checker
-- Start typing your Lua code here

function greet(name)
    if name then
        print(\"Hello, \" .. name .. \"!\")
    else
        print(\"Hello, World!\")
    end
end

-- Example with potential syntax error (uncomment to test):
-- function broken_function(
--     print(\"Missing closing parenthesis\")

greet(\"Developer\")

-- Try some advanced Lua features:
local numbers = \x7b1, 2, 3, 4, 5\x7d
for i, v in ipairs(numbers) do
    print(\"Index: \" .. i .. \", Value: \" .. v)
end

-- Coroutine example
local co = coroutine.create(function()
    for i = 1, 3 do
        print(\"Coroutine step: \" .. i)
        coroutine.yield()
    end
end)

coroutine.resume(co)
"

end ScriptLint
